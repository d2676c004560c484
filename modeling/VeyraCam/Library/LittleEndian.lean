import Mathlib.Data.List.Basic
import Mathlib.Tactic.Ring

/-! # Fixed-width little-endian words

A natural number as a given number of bytes, least significant first, and back.
The two maps are inverse on numbers that fit and on byte lists of that width.
-/

namespace VeyraCam.LittleEndian

/-- The `w` low bytes of a number, least significant first. -/
def encode : ℕ → ℕ → List UInt8
  | 0, _ => []
  | w + 1, n => UInt8.ofNat n :: encode w (n / 256)

/-- The number a list of bytes spells, least significant first. -/
def decode : List UInt8 → ℕ
  | [] => 0
  | b :: bs => b.toNat + 256 * decode bs

@[simp] theorem length_encode (w n : ℕ) : (encode w n).length = w := by
  induction w generalizing n with
  | zero => rfl
  | succ w ih => simp [encode, ih]

theorem decode_encode {w n : ℕ} (h : n < 256 ^ w) : decode (encode w n) = n := by
  induction w generalizing n with
  | zero => simp only [pow_zero, Nat.lt_one_iff] at h; simp [encode, decode, h]
  | succ w ih =>
    have hd : n / 256 < 256 ^ w := Nat.div_lt_of_lt_mul (by rwa [pow_succ'] at h)
    rw [encode, decode, ih hd, UInt8.toNat_ofNat']
    exact Nat.mod_add_div n 256

theorem decode_lt (bs : List UInt8) : decode bs < 256 ^ bs.length := by
  induction bs with
  | nil => exact Nat.one_pos
  | cons b bs ih =>
    have hb := b.toNat_lt
    rw [decode, List.length_cons, pow_succ]
    omega

theorem encode_decode (bs : List UInt8) : encode bs.length (decode bs) = bs := by
  induction bs with
  | nil => rfl
  | cons b bs ih =>
    have hb := b.toNat_lt
    have hhead : UInt8.ofNat (b.toNat + 256 * decode bs) = b := by
      apply UInt8.toNat_inj.mp
      rw [UInt8.toNat_ofNat']
      omega
    have htail : (b.toNat + 256 * decode bs) / 256 = decode bs := by omega
    rw [List.length_cons, decode, encode, hhead, htail, ih]

theorem encode_inj {w a b : ℕ} (ha : a < 256 ^ w) (hb : b < 256 ^ w) :
    encode w a = encode w b ↔ a = b := by
  constructor
  · intro h
    rw [← decode_encode ha, h, decode_encode hb]
  · rintro rfl
    rfl

/-- The number spelled by the `w` bytes at an offset. -/
def decodeAt (offset w : ℕ) (bs : List UInt8) : ℕ := decode ((bs.drop offset).take w)

theorem decodeAt_lt (offset w : ℕ) (bs : List UInt8) : decodeAt offset w bs < 256 ^ w := by
  refine (decode_lt _).trans_le (Nat.pow_le_pow_right (by decide) ?_)
  exact List.length_take_le _ _

theorem encode_decodeAt {offset w : ℕ} {bs : List UInt8} (h : offset + w ≤ bs.length) :
    encode w (decodeAt offset w bs) = (bs.drop offset).take w := by
  have hlength : ((bs.drop offset).take w).length = w := by
    rw [List.length_take, List.length_drop]
    omega
  have hround := encode_decode ((bs.drop offset).take w)
  rwa [hlength] at hround

theorem decodeAt_encode_append_of_le {v offset w n : ℕ} (h : v ≤ offset) (bs : List UInt8) :
    decodeAt offset w (encode v n ++ bs) = decodeAt (offset - v) w bs := by
  rw [decodeAt, decodeAt, List.drop_append, length_encode,
    List.drop_eq_nil_of_le (by rwa [length_encode]), List.nil_append]

theorem decodeAt_encode_append {w n : ℕ} (h : n < 256 ^ w) (bs : List UInt8) :
    decodeAt 0 w (encode w n ++ bs) = n := by
  rw [decodeAt, List.drop_zero, List.take_left' (length_encode w n), decode_encode h]

end VeyraCam.LittleEndian
