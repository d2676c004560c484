import VeyraCam.Library.LittleEndian
import VeyraCam.Protocol.Bytes

/-! # The packet header

The packed header that starts every media packet, as its eleven fields and as
the 34 bytes of its little-endian memory image.
-/

namespace VeyraCam

def protocolMagic : UInt32 := 0x56455952
def protocolVersion : UInt8 := 0x01
def maxPacketSize : ℕ := 1200

def flagNone : UInt8 := 0x00
def flagKeyframe : UInt8 := 0x01
def flagAudio : UInt8 := 0x02
def flagEncrypted : UInt8 := 0x04

structure PacketHeader where
  magic : UInt32
  version : UInt8
  flags : UInt8
  streamId : UInt16
  sessionId : UInt32
  frameId : UInt32
  sequence : UInt32
  fragmentIndex : UInt16
  fragmentCount : UInt16
  timestampUs : UInt64
  payloadLength : UInt16
  deriving DecidableEq, Repr

/-- `VEYRA_HEADER_SIZE`, the size of the packed structure. -/
def headerSize : ℕ := 34

def maxPayloadSize : ℕ := maxPacketSize - headerSize

namespace PacketHeader

open LittleEndian

/-- The memory image of the packed structure. -/
def bytes (h : PacketHeader) : Bytes :=
  encode 4 h.magic.toNat ++ (encode 1 h.version.toNat ++ (encode 1 h.flags.toNat ++
    (encode 2 h.streamId.toNat ++ (encode 4 h.sessionId.toNat ++ (encode 4 h.frameId.toNat ++
      (encode 4 h.sequence.toNat ++ (encode 2 h.fragmentIndex.toNat ++
        (encode 2 h.fragmentCount.toNat ++ (encode 8 h.timestampUs.toNat ++
          encode 2 h.payloadLength.toNat)))))))))

/-- The structure with a given memory image. -/
def ofBytes (bs : Bytes) : PacketHeader where
  magic := .ofNat (decodeAt 0 4 bs)
  version := .ofNat (decodeAt 4 1 bs)
  flags := .ofNat (decodeAt 5 1 bs)
  streamId := .ofNat (decodeAt 6 2 bs)
  sessionId := .ofNat (decodeAt 8 4 bs)
  frameId := .ofNat (decodeAt 12 4 bs)
  sequence := .ofNat (decodeAt 16 4 bs)
  fragmentIndex := .ofNat (decodeAt 20 2 bs)
  fragmentCount := .ofNat (decodeAt 22 2 bs)
  timestampUs := .ofNat (decodeAt 24 8 bs)
  payloadLength := .ofNat (decodeAt 32 2 bs)

def isKeyframe (h : PacketHeader) : Bool := h.flags &&& flagKeyframe != 0

def isEncrypted (h : PacketHeader) : Bool := h.flags &&& flagEncrypted != 0

@[simp] theorem length_bytes (h : PacketHeader) : h.bytes.length = headerSize := by
  simp [bytes, headerSize]

theorem ofBytes_bytes_append (h : PacketHeader) (rest : Bytes) :
    ofBytes (h.bytes ++ rest) = h := by
  obtain ⟨magic, version, flags, streamId, sessionId, frameId, sequence, fragmentIndex,
    fragmentCount, timestampUs, payloadLength⟩ := h
  have h₀ := magic.toNat_lt
  have h₁ := version.toNat_lt
  have h₂ := flags.toNat_lt
  have h₃ := streamId.toNat_lt
  have h₄ := sessionId.toNat_lt
  have h₅ := frameId.toNat_lt
  have h₆ := sequence.toNat_lt
  have h₇ := fragmentIndex.toNat_lt
  have h₈ := fragmentCount.toNat_lt
  have h₉ := timestampUs.toNat_lt
  have h₁₀ := payloadLength.toNat_lt
  simp only [ofBytes, bytes, List.append_assoc, mk.injEq]
  simp [decodeAt_encode_append_of_le, decodeAt_encode_append, *]

theorem bytes_ofBytes {bs : Bytes} (h : headerSize ≤ bs.length) :
    (ofBytes bs).bytes = bs.take headerSize := by
  have field {offset w : ℕ} (hw : offset + w ≤ headerSize) :
      encode w (decodeAt offset w bs) = (bs.drop offset).take w := encode_decodeAt (hw.trans h)
  have join (offset w n : ℕ) :
      (bs.drop offset).take w ++ (bs.drop (offset + w)).take n = (bs.drop offset).take (w + n) := by
    rw [List.take_add, List.drop_drop]
  have h₈ (offset : ℕ) : decodeAt offset 1 bs < 2 ^ 8 := decodeAt_lt offset 1 bs
  have h₁₆ (offset : ℕ) : decodeAt offset 2 bs < 2 ^ 16 := decodeAt_lt offset 2 bs
  have h₃₂ (offset : ℕ) : decodeAt offset 4 bs < 2 ^ 32 := decodeAt_lt offset 4 bs
  have h₆₄ (offset : ℕ) : decodeAt offset 8 bs < 2 ^ 64 := decodeAt_lt offset 8 bs
  simp only [bytes, ofBytes, UInt8.toNat_ofNat', UInt16.toNat_ofNat', UInt32.toNat_ofNat',
    UInt64.toNat_ofNat', Nat.mod_eq_of_lt (h₈ _), Nat.mod_eq_of_lt (h₁₆ _),
    Nat.mod_eq_of_lt (h₃₂ _), Nat.mod_eq_of_lt (h₆₄ _)]
  -- each field is a slice of the image, and the slices follow each other from the last to the first
  rw [field (by decide), field (by decide), field (by decide), field (by decide),
    field (by decide), field (by decide), field (by decide), field (by decide),
    field (by decide), field (by decide), field (by decide)]
  rw [join 24 8, join 22, join 20, join 16, join 12, join 8, join 6, join 5, join 4, join 0]
  rfl

end PacketHeader

/-- `SerializeHeader`: nothing is written to a buffer that is too small. -/
def serializeHeader (header : PacketHeader) (bufferSize : ℕ) : Option Bytes :=
  if bufferSize < headerSize then none else some header.bytes

/-- `DeserializeHeader`: the header, when the buffer holds one with the magic and version. -/
def deserializeHeader (inBuffer : Bytes) : Option PacketHeader :=
  if inBuffer.length < headerSize then none
  else
    let outHeader := PacketHeader.ofBytes inBuffer
    if outHeader.magic ≠ protocolMagic ∨ outHeader.version ≠ protocolVersion then none
    else some outHeader

/-- A header with the protocol's magic and version is read back, whatever follows it. -/
theorem deserializeHeader_bytes_append {h : PacketHeader} (hm : h.magic = protocolMagic)
    (hv : h.version = protocolVersion) (rest : Bytes) :
    deserializeHeader (h.bytes ++ rest) = some h := by
  simp [deserializeHeader, PacketHeader.ofBytes_bytes_append, hm, hv]

theorem deserializeHeader_eq_some_iff {inBuffer : Bytes} {header : PacketHeader} :
    deserializeHeader inBuffer = some header ↔ headerSize ≤ inBuffer.length ∧
      header = .ofBytes inBuffer ∧ header.magic = protocolMagic ∧
        header.version = protocolVersion := by
  unfold deserializeHeader
  dsimp only
  constructor
  · intro h
    split_ifs at h with hshort hforeign
    obtain rfl := Option.some.inj h
    push Not at hshort hforeign
    exact ⟨hshort, rfl, hforeign⟩
  · rintro ⟨hlength, rfl, hm, hv⟩
    rw [if_neg (not_lt.mpr hlength), if_neg (by simp [hm, hv])]

def signature : Bytes :=
  LittleEndian.encode 4 protocolMagic.toNat ++ LittleEndian.encode 1 protocolVersion.toNat

theorem signature_prefix_bytes_iff {header : PacketHeader} {rest : Bytes} :
    signature <+: header.bytes ++ rest ↔
      header.magic = protocolMagic ∧ header.version = protocolVersion := by
  have hlength : signature.length =
      (LittleEndian.encode 4 header.magic.toNat ++
        LittleEndian.encode 1 header.version.toNat).length := by simp [signature]
  rw [PacketHeader.bytes, List.append_assoc, List.append_assoc, ← List.append_assoc,
    List.prefix_iff_eq_take, hlength, List.take_left, signature]
  constructor
  · intro h
    obtain ⟨hm, hv⟩ := List.append_inj h (by simp)
    rw [LittleEndian.encode_inj protocolMagic.toNat_lt header.magic.toNat_lt] at hm
    rw [LittleEndian.encode_inj protocolVersion.toNat_lt header.version.toNat_lt] at hv
    exact ⟨(UInt32.toNat_inj.mp hm).symm, (UInt8.toNat_inj.mp hv).symm⟩
  · rintro ⟨hm, hv⟩
    rw [hm, hv]

/-- A header of the protocol survives being written to any buffer that has room for it, a
buffer that is accepted starts with what is written for its header, and accepted are those with
room for a header that start with the magic and version. -/
theorem header_codec :
    (∀ (header : PacketHeader) (buffer : Bytes), header.magic = protocolMagic →
      header.version = protocolVersion → headerSize ≤ buffer.length →
      ∃ written, serializeHeader header buffer.length = some written ∧
        deserializeHeader (written ++ buffer.drop written.length) = some header) ∧
    (∀ (inBuffer : Bytes) (header : PacketHeader), deserializeHeader inBuffer = some header →
      serializeHeader header headerSize = some (inBuffer.take headerSize)) ∧
    ∀ inBuffer : Bytes, (deserializeHeader inBuffer).isSome = true ↔
      headerSize ≤ inBuffer.length ∧ signature <+: inBuffer := by
  refine ⟨fun header buffer hm hv hlength => ?_, fun inBuffer header h => ?_, fun inBuffer => ?_⟩
  · refine ⟨header.bytes, if_neg (not_lt.mpr hlength), ?_⟩
    exact deserializeHeader_bytes_append hm hv _
  · obtain ⟨hlength, rfl, -, -⟩ := deserializeHeader_eq_some_iff.mp h
    rw [serializeHeader, if_neg (lt_irrefl _), PacketHeader.bytes_ofBytes hlength]
  · constructor
    · intro h
      obtain ⟨header, hheader⟩ := Option.isSome_iff_exists.mp h
      obtain ⟨hlength, rfl, hm, hv⟩ := deserializeHeader_eq_some_iff.mp hheader
      refine ⟨hlength, ?_⟩
      rw [← List.take_append_drop headerSize inBuffer, ← PacketHeader.bytes_ofBytes hlength]
      exact signature_prefix_bytes_iff.mpr ⟨hm, hv⟩
    · rintro ⟨hlength, hsignature⟩
      rw [← List.take_append_drop headerSize inBuffer, ← PacketHeader.bytes_ofBytes hlength,
        signature_prefix_bytes_iff] at hsignature
      exact Option.isSome_iff_exists.mpr
        ⟨_, deserializeHeader_eq_some_iff.mpr ⟨hlength, rfl, hsignature⟩⟩

end VeyraCam
