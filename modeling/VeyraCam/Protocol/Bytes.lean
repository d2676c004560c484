import Mathlib.Data.Vector.Basic

/-! # Bytes, buffers and text

The memory a function of the source is handed: byte strings, arrays of a fixed
size, and pointers that come with a size and may be null.
-/

namespace VeyraCam

/-- A byte string, as `std::vector<uint8_t>` or a pointer with a length. -/
abbrev Bytes := List UInt8

abbrev FixedBytes (n : ℕ) := List.Vector UInt8 n

/-- `std::string`, one `Char` for each `char`. -/
abbrev Text := List Char

/-- A `const uint8_t*` with its size; a null pointer may come with any size. -/
inductive Buffer where
  | null (size : ℕ)
  | data (bytes : Bytes)
  deriving DecidableEq, Repr

namespace Buffer

def size : Buffer → ℕ
  | null size => size
  | data bytes => bytes.length

def bytes : Buffer → Bytes
  | null _ => []
  | data bytes => bytes

def isNull : Buffer → Bool
  | null _ => true
  | data _ => false

/-- What a zero-initialized vector of the buffer's size holds once the buffer is copied into
it, unless the pointer is null. -/
def copied (b : Buffer) : Bytes := if b.isNull then .replicate b.size 0 else b.bytes

@[simp] theorem copied_data (bs : Bytes) : (data bs).copied = bs := rfl

theorem length_bytes {b : Buffer} (h : b.isNull = false) : b.bytes.length = b.size := by
  cases b with
  | null n => simp [isNull] at h
  | data bs => rfl

@[simp] theorem length_copied (b : Buffer) : b.copied.length = b.size := by
  unfold copied; split_ifs with h
  · exact List.length_replicate
  · exact length_bytes (by simpa using h)

end Buffer

end VeyraCam
