import VeyraCam.Crypto.SessionCrypto
import VeyraCam.Library.Blocks
import VeyraCam.Library.Machine
import VeyraCam.Protocol.Header

/-! # The packetizer

Frames are cut into fragments that fit a packet, and each fragment is sealed
under the packet's own sequence number when a key is armed. Every packet that
is attempted consumes one sequence number, also when encryption fails.
-/

namespace VeyraCam

structure Packetizer where
  sessionId : UInt32
  packetSequence : UInt32 := 0
  crypto : Option SessionCrypto := none

namespace Packetizer

/-- One packet the code sets out to send: the nonce its `Encrypt` call builds, if it
makes one, and the packet, unless encryption fails. -/
structure Attempt where
  nonce : Option (FixedBytes 12)
  packet : Option Bytes
  deriving DecidableEq

def setCrypto (p : Packetizer) (crypto : Option SessionCrypto) : Packetizer := { p with crypto }

variable (lib : Mbedtls)

/-- The end of both packetizing functions: copy the header, then the payload, sealed when
a key is armed, and advance the sequence on success and on failure. -/
def sendPacket (p : Packetizer) (header : PacketHeader) (payload : Buffer) :
    Packetizer × Attempt :=
  let next := { p with packetSequence := p.packetSequence + 1 }
  match p.crypto with
  | some crypto =>
    let sealed := crypto.encrypt lib payload p.packetSequence header.bytes
    (next, {
      nonce := crypto.encryptNonce payload p.packetSequence
      packet := sealed.map (header.bytes ++ ·) })
  | none => (next, { nonce := none, packet := some (header.bytes ++ payload.copied) })

/-- The plaintext that fits one packet, with room for the tag when a key is armed. -/
def maxPlaintext (p : Packetizer) : ℕ :=
  if p.crypto.isSome then maxPayloadSize - tagSize else maxPayloadSize

def wireLength (p : Packetizer) (size : ℕ) : ℕ := if p.crypto.isSome then size + tagSize else size

def wireFlags (p : Packetizer) (flags : UInt8) : UInt8 :=
  if p.crypto.isSome then flags ||| flagEncrypted else flags

def videoHeader (p : Packetizer) (frameId : UInt32) (timestampUs : UInt64) (isKeyframe : Bool)
    (fragmentIndex fragmentCount : UInt16) (size : ℕ) : PacketHeader where
  magic := protocolMagic
  version := protocolVersion
  flags := p.wireFlags (if isKeyframe then flagKeyframe else flagNone)
  streamId := 0
  sessionId := p.sessionId
  frameId := frameId
  sequence := p.packetSequence
  fragmentIndex := fragmentIndex
  fragmentCount := fragmentCount
  timestampUs := timestampUs
  payloadLength := .ofNat (p.wireLength size)

/-- The body of the loop of `Packetizer::PacketizeFrame`. -/
def packetizeFragment (frameData : Bytes) (frameId : UInt32) (timestampUs : UInt64)
    (isKeyframe : Bool) (fragmentCount : UInt16) (p : Packetizer) (i : ℕ) :
    Packetizer × List Attempt :=
  let chunk := Blocks.block p.maxPlaintext frameData i
  let header := p.videoHeader frameId timestampUs isKeyframe (.ofNat i) fragmentCount chunk.length
  let (next, attempt) := p.sendPacket lib header (.data chunk)
  (next, [attempt])

/-- `fragmentCount` in `Packetizer::PacketizeFrame`, the sum in `size_t` and the quotient
cast to 16 bits. -/
def fragmentCount (p : Packetizer) (frameSize : ℕ) : UInt16 :=
  .ofNat ((frameSize + p.maxPlaintext - 1) % 2 ^ 64 / p.maxPlaintext)

/-- `Packetizer::PacketizeFrame`. The packets returned are those of the attempts, in order. -/
def packetizeFrame (p : Packetizer) (frameData : Buffer) (frameId : UInt32) (timestampUs : UInt64)
    (isKeyframe : Bool) : Packetizer × List Attempt :=
  if frameData.isNull || frameData.size = 0 then (p, [])
  else
    let count := p.fragmentCount frameData.size
    Machine.exec (packetizeFragment lib frameData.bytes frameId timestampUs isKeyframe count) p
      (List.range count.toNat)

def audioHeader (p : Packetizer) (frameId : UInt32) (timestampUs : UInt64) (size : ℕ) :
    PacketHeader where
  magic := protocolMagic
  version := protocolVersion
  flags := p.wireFlags flagAudio
  streamId := 1
  sessionId := p.sessionId
  frameId := frameId
  sequence := p.packetSequence
  fragmentIndex := 0
  fragmentCount := 1
  timestampUs := timestampUs
  payloadLength := .ofNat (p.wireLength size)

def packetizeAudio (p : Packetizer) (audioData : Buffer) (frameId : UInt32)
    (timestampUs : UInt64) : Packetizer × List Attempt :=
  if !audioData.isNull && maxPayloadSize - tagSize < audioData.size then (p, [])
  else if p.crypto.isSome && audioData.size = 0 then (p, [])
  else
    let header := p.audioHeader frameId timestampUs audioData.size
    let (next, attempt) := p.sendPacket lib header audioData
    (next, [attempt])

inductive Call where
  | video (frameData : Buffer) (frameId : UInt32) (timestampUs : UInt64) (isKeyframe : Bool)
  | audio (audioData : Buffer) (frameId : UInt32) (timestampUs : UInt64)
  deriving DecidableEq

def call (p : Packetizer) : Call → Packetizer × List Attempt
  | .video frameData frameId timestampUs isKeyframe =>
    p.packetizeFrame lib frameData frameId timestampUs isKeyframe
  | .audio audioData frameId timestampUs => p.packetizeAudio lib audioData frameId timestampUs

end Packetizer

def packets (attempts : List Packetizer.Attempt) : List Bytes :=
  attempts.filterMap (·.packet)

def samplePacket (crypto : Option SessionCrypto) : Bytes :=
  (packets (Packetizer.packetizeFrame .sample ⟨7, 0, crypto⟩ (.data [1, 2, 3]) 1 5 true).2).headD []

def sampleFragment (crypto : Option SessionCrypto) (index : UInt16) : Bytes :=
  let p : Packetizer := ⟨7, index.toUInt32, crypto⟩
  let header := p.videoHeader 1 5 true index 2 1
  (p.sendPacket .sample header (.data [index.toUInt8])).2.packet.getD []

def sampleKeyframe (sessionId frameId sequence : UInt32) : Bytes :=
  let p : Packetizer := ⟨sessionId, sequence, none⟩
  (p.sendPacket .sample (p.videoHeader frameId 5 true 0 1 1) (.data [9])).2.packet.getD []

namespace Packetizer

variable {lib : Mbedtls} (p : Packetizer) (header : PacketHeader) (payload : Buffer)

@[simp] theorem sendPacket_fst :
    (p.sendPacket lib header payload).1 = { p with packetSequence := p.packetSequence + 1 } := by
  unfold sendPacket; split <;> rfl

theorem maxPlaintext_pos : 0 < p.maxPlaintext := by
  unfold maxPlaintext maxPayloadSize maxPacketSize headerSize tagSize; split_ifs <;> omega

theorem maxPlaintext_le : p.maxPlaintext ≤ 1166 := by
  unfold maxPlaintext maxPayloadSize maxPacketSize headerSize tagSize; split_ifs <;> omega

theorem maxPlaintext_congr {p q : Packetizer} (h : p.crypto = q.crypto) :
    p.maxPlaintext = q.maxPlaintext := by
  unfold maxPlaintext; rw [h]

/-- The state after `n` packets have been attempted. -/
def advance (p : Packetizer) (n : ℕ) : Packetizer :=
  { p with packetSequence := p.packetSequence + .ofNat n }

@[simp] theorem advance_zero : p.advance 0 = p := by simp [advance]

@[simp] theorem advance_crypto (n : ℕ) : (p.advance n).crypto = p.crypto := rfl

@[simp] theorem advance_sessionId (n : ℕ) : (p.advance n).sessionId = p.sessionId := rfl

theorem advance_advance (n m : ℕ) : (p.advance n).advance m = p.advance (n + m) := by
  simp [advance, UInt32.add_assoc]

theorem sendPacket_fst_eq_advance : (p.sendPacket lib header payload).1 = p.advance 1 := by
  rw [sendPacket_fst]; rfl

@[simp] theorem maxPlaintext_advance (n : ℕ) : (p.advance n).maxPlaintext = p.maxPlaintext := rfl

theorem exec_packetizeFragment (frameData : Bytes) (frameId : UInt32) (timestampUs : UInt64)
    (isKeyframe : Bool) (count : UInt16) (n : ℕ) :
    Machine.exec (packetizeFragment lib frameData frameId timestampUs isKeyframe count) p
        (List.range n) =
      (p.advance n, (List.range n).flatMap fun i =>
        (packetizeFragment lib frameData frameId timestampUs isKeyframe count
          (p.advance i) i).2) := by
  induction n with
  | zero => simp
  | succ n ih =>
    rw [List.range_succ, Machine.exec_concat, ih, List.flatMap_append, List.flatMap_singleton]
    refine Prod.ext ?_ rfl
    change ((p.advance n).sendPacket lib _ _).1 = _
    rw [sendPacket_fst_eq_advance, advance_advance]

theorem call_fst (lib : Mbedtls) (p : Packetizer) (k : Call) :
    ∃ n, (p.call lib k).1 = p.advance n := by
  cases k with
  | video frameData frameId timestampUs isKeyframe =>
    simp only [call, packetizeFrame]
    split_ifs
    · exact ⟨0, (advance_zero p).symm⟩
    · exact ⟨_, by rw [exec_packetizeFragment]⟩
  | audio audioData frameId timestampUs =>
    simp only [call, packetizeAudio]
    split_ifs
    · exact ⟨0, (advance_zero p).symm⟩
    · exact ⟨0, (advance_zero p).symm⟩
    · exact ⟨1, sendPacket_fst_eq_advance ..⟩

theorem crypto_call (lib : Mbedtls) (p : Packetizer) (k : Call) :
    (p.call lib k).1.crypto = p.crypto := by
  obtain ⟨n, h⟩ := call_fst lib p k
  rw [h, advance_crypto]

theorem sessionId_call (lib : Mbedtls) (p : Packetizer) (k : Call) :
    (p.call lib k).1.sessionId = p.sessionId := by
  obtain ⟨n, h⟩ := call_fst lib p k
  rw [h, advance_sessionId]

theorem mem_packetizeFrame_iff {frameData : Buffer} {frameId : UInt32} {timestampUs : UInt64}
    {isKeyframe : Bool} {a : Attempt} :
    a ∈ (p.packetizeFrame lib frameData frameId timestampUs isKeyframe).2 ↔
      frameData.isNull = false ∧ frameData.size ≠ 0 ∧
        ∃ i < (p.fragmentCount frameData.size).toNat,
          a = ((p.advance i).sendPacket lib
            ((p.advance i).videoHeader frameId timestampUs isKeyframe (.ofNat i)
              (p.fragmentCount frameData.size)
              (Blocks.block p.maxPlaintext frameData.bytes i).length)
            (.data (Blocks.block p.maxPlaintext frameData.bytes i))).2 := by
  unfold packetizeFrame
  split_ifs with h
  · refine iff_of_false List.not_mem_nil ?_
    rintro ⟨hnull, hsize, -⟩
    simp [hnull, hsize] at h
  · obtain ⟨hnull, hsize⟩ : frameData.isNull = false ∧ frameData.size ≠ 0 := by simpa using h
    rw [exec_packetizeFragment, List.mem_flatMap, and_iff_right hnull, and_iff_right hsize]
    simp only [List.mem_range, packetizeFragment, List.mem_singleton, maxPlaintext_advance]

theorem mem_packetizeAudio {audioData : Buffer} {frameId : UInt32} {timestampUs : UInt64}
    {a : Attempt} (h : a ∈ (p.packetizeAudio lib audioData frameId timestampUs).2) :
    (audioData.isNull = false → audioData.size ≤ maxPayloadSize - tagSize) ∧
      a = (p.sendPacket lib (p.audioHeader frameId timestampUs audioData.size) audioData).2 := by
  unfold packetizeAudio at h
  split_ifs at h with hlarge
  · cases h
  · cases h
  · refine ⟨fun hnull => ?_, List.mem_singleton.mp h⟩
    simpa [hnull] using hlarge

end Packetizer

end VeyraCam
