import VeyraCam.Packet.Assembly
import VeyraCam.Packet.Packetizer

/-! # From the packetizer to the reassembler

A packet opens at a receiver with the sender's keys to the header and the
payload it was made from. The packets of a list of frames are numbered through,
one for each block of each frame.
-/

namespace VeyraCam

open FrameReassembler

variable {lib : Mbedtls} {p : Packetizer} {rx : Option SessionCrypto} {header : PacketHeader}
  {payload : Buffer} {packet : Bytes}

/-- The keys at the two ends of a stream: none, or mirrored ones of a cipher that decrypts
what it encrypts. -/
inductive Paired (lib : Mbedtls) : Option SessionCrypto → Option SessionCrypto → Prop
  | keyless : Paired lib none none
  | keyed {tx rx : SessionCrypto} (h : SessionCrypto.Mirrors tx rx)
      (hl : lib.DecryptInvertsEncrypt) : Paired lib (some tx) (some rx)

theorem Paired.keys {tx : Option SessionCrypto} (hp : Paired lib tx rx)
    (hk : tx.isSome = true → lib.EncryptSucceeds) :
    ∀ c, tx = some c → lib.EncryptSucceeds ∧ c.hasKeys = true := by
  rintro c rfl
  cases hp with
  | keyed hmir _ => exact ⟨hk rfl, hmir.tx_keyed⟩

namespace Packetizer

/-- The header describes a packet of the current sequence with a payload of the given size. -/
structure Describes (p : Packetizer) (header : PacketHeader) (size : ℕ) : Prop where
  magic : header.magic = protocolMagic
  version : header.version = protocolVersion
  stream : header.streamId = 0 ∨ header.streamId = 1
  sequence : header.sequence = p.packetSequence
  encrypted : header.isEncrypted = p.crypto.isSome
  length : header.payloadLength.toNat = p.wireLength size

theorem sendPacket_packet (h : (p.sendPacket lib header payload).2.packet = some packet) :
    ∃ rest, packet = header.bytes ++ rest := by
  unfold sendPacket at h
  split at h
  · obtain ⟨sealed, -, rfl⟩ := Option.map_eq_some_iff.mp h
    exact ⟨sealed, rfl⟩
  · exact ⟨_, (Option.some.inj h).symm⟩

theorem openPacket_sendPacket (hp : Paired lib p.crypto rx) (hd : p.Describes header payload.size)
    (h : (p.sendPacket lib header payload).2.packet = some packet) :
    openPacket lib rx packet = some (header, payload.copied) := by
  obtain ⟨hm, hv, hs, hseq, he, hlen⟩ := hd
  have hstream : ¬ (header.streamId ≠ 0 ∧ header.streamId ≠ 1) := by tauto
  have hopen (rest : Bytes) := deserializeHeader_bytes_append hm hv rest
  unfold sendPacket at h
  generalize hc : p.crypto = tx at hp h
  simp only [hc, wireLength] at he hlen
  cases hp with
  | keyless =>
    obtain rfl := Option.some.inj h
    have hlen' : header.payloadLength.toNat = payload.copied.length := by simpa using hlen
    simp only [openPacket, hopen, List.length_append, PacketHeader.length_bytes, hlen', lt_irrefl,
      if_false, hstream, he, Option.isSome_none, Bool.false_eq_true,
      List.drop_left' header.length_bytes, List.take_length]
  | keyed hmir hl =>
    obtain ⟨sealed, hsealed, rfl⟩ := Option.map_eq_some_iff.mp h
    have hlen' : header.payloadLength.toNat = sealed.length := by
      rw [SessionCrypto.length_encrypt hsealed, hlen]; rfl
    have hnull : payload.copied = payload.bytes := by
      cases payload with
      | data bs => rfl
      | null n =>
        cases n with
        | zero => rfl
        | succ n => simp [SessionCrypto.encrypt, SessionCrypto.encryptNonce, Buffer.isNull,
            Buffer.size] at hsealed
    simp only [openPacket, hopen, List.length_append, PacketHeader.length_bytes, hlen', lt_irrefl,
      if_false, hstream, he, Option.isSome_some, if_true, hseq, hnull,
      List.drop_left' header.length_bytes, List.take_left' header.length_bytes, List.take_length,
      hmir.decrypt_encrypt hl hsealed, Option.map_some]

theorem sendPacket_isSome (hk : ∀ c, p.crypto = some c → lib.EncryptSucceeds ∧ c.hasKeys = true)
    (header : PacketHeader) (bytes : Bytes) :
    (p.sendPacket lib header (.data bytes)).2.packet.isSome := by
  unfold sendPacket
  split
  · next c hc =>
    obtain ⟨hl, hkeys⟩ := hk c hc
    simpa using SessionCrypto.encrypt_isSome hl hkeys bytes _ _
  · rfl

theorem wireFlags_keyframe (p : Packetizer) (isKeyframe : Bool) :
    (p.wireFlags (if isKeyframe then flagKeyframe else flagNone) &&& flagKeyframe != 0) =
      isKeyframe := by
  unfold wireFlags
  cases p.crypto.isSome <;> cases isKeyframe <;> rfl

theorem wireFlags_encrypted (p : Packetizer) (isKeyframe : Bool) :
    (p.wireFlags (if isKeyframe then flagKeyframe else flagNone) &&& flagEncrypted != 0) =
      p.crypto.isSome := by
  unfold wireFlags
  cases p.crypto.isSome <;> cases isKeyframe <;> rfl

theorem wireFlags_audio_encrypted (p : Packetizer) :
    (p.wireFlags flagAudio &&& flagEncrypted != 0) = p.crypto.isSome := by
  unfold wireFlags
  cases p.crypto.isSome <;> rfl

theorem videoHeader_isKeyframe (frameId : UInt32) (timestampUs : UInt64) (isKeyframe : Bool)
    (fragmentIndex fragmentCount : UInt16) (size : ℕ) :
    (p.videoHeader frameId timestampUs isKeyframe fragmentIndex fragmentCount size).isKeyframe =
      isKeyframe := wireFlags_keyframe p isKeyframe

theorem wireLength_lt {size : ℕ} (h : size ≤ p.maxPlaintext) : p.wireLength size < 2 ^ 16 := by
  unfold maxPlaintext maxPayloadSize maxPacketSize headerSize tagSize at h
  unfold wireLength tagSize
  split_ifs at h ⊢ <;> omega

theorem videoHeader_describes {size : ℕ} (h : size ≤ p.maxPlaintext) (frameId : UInt32)
    (timestampUs : UInt64) (isKeyframe : Bool) (fragmentIndex fragmentCount : UInt16) :
    p.Describes
      (p.videoHeader frameId timestampUs isKeyframe fragmentIndex fragmentCount size) size where
  magic := rfl
  version := rfl
  stream := .inl rfl
  sequence := rfl
  encrypted := wireFlags_encrypted p isKeyframe
  length := by
    simp only [videoHeader, UInt16.toNat_ofNat']
    exact Nat.mod_eq_of_lt (wireLength_lt h)

end Packetizer

def VideoFrame.call (f : VideoFrame) : Packetizer.Call :=
  .video (.data f.data) f.frameId f.timestampUs f.isKeyframe

/-- The fragments of a list of frames in the order they are sent, as a frame and an index. -/
def slots (m : ℕ) (frames : List VideoFrame) : List (VideoFrame × ℕ) :=
  frames.flatMap fun f => (List.range (Blocks.count m f.data.length)).map (f, ·)

theorem mem_slots {m : ℕ} {frames : List VideoFrame} {f : VideoFrame} {i : ℕ} :
    (f, i) ∈ slots m frames ↔ f ∈ frames ∧ i < Blocks.count m f.data.length := by
  simp only [slots, List.mem_flatMap, List.mem_map, List.mem_range, Prod.mk.injEq]
  constructor
  · rintro ⟨g, hg, j, hj, rfl, rfl⟩; exact ⟨hg, hj⟩
  · rintro ⟨hf, hi⟩; exact ⟨f, hf, i, hi, rfl, rfl⟩

theorem nodup_slots (m : ℕ) {frames : List VideoFrame} (h : frames.Nodup) :
    (slots m frames).Nodup := by
  refine List.nodup_flatMap.mpr ⟨fun f _ => ?_, h.imp fun hne => ?_⟩
  · exact List.nodup_range.map fun i j hij => (Prod.mk.inj hij).2
  · intro s hs hs'
    obtain ⟨i, -, rfl⟩ := List.mem_map.mp hs
    obtain ⟨j, -, he⟩ := List.mem_map.mp hs'
    exact hne (Prod.mk.inj he).1.symm

namespace Packetizer

def slotHeader (p : Packetizer) (s : VideoFrame × ℕ) : PacketHeader :=
  p.videoHeader s.1.frameId s.1.timestampUs s.1.isKeyframe (.ofNat s.2)
    (.ofNat (Blocks.count p.maxPlaintext s.1.data.length))
    (Blocks.block p.maxPlaintext s.1.data s.2).length

def sendSlot (lib : Mbedtls) (p : Packetizer) (s : VideoFrame × ℕ) : Attempt :=
  (p.sendPacket lib (p.slotHeader s) (.data (Blocks.block p.maxPlaintext s.1.data s.2))).2

theorem fragmentCount_eq {f : VideoFrame} (hf : f.Sendable p.maxPlaintext) :
    p.fragmentCount f.data.length = .ofNat (Blocks.count p.maxPlaintext f.data.length) := by
  have hpos := p.maxPlaintext_pos
  have hle := p.maxPlaintext_le
  have hlt : ¬ 65535 < Blocks.count p.maxPlaintext f.data.length := by
    have := hf.count_le; omega
  rw [Blocks.lt_count_iff hpos] at hlt
  rw [fragmentCount, Nat.mod_eq_of_lt (by omega), Blocks.count]

theorem call_frame {f : VideoFrame} (hf : f.Sendable p.maxPlaintext) :
    p.call lib f.call =
      (p.advance (slots p.maxPlaintext [f]).length,
        (slots p.maxPlaintext [f]).mapIdx fun j s => (p.advance j).sendSlot lib s) := by
  have hsize : (Buffer.data f.data).size ≠ 0 := by
    simpa [Buffer.size] using hf.nonempty
  have hcount : (p.fragmentCount (Buffer.data f.data).size).toNat =
      Blocks.count p.maxPlaintext f.data.length := by
    rw [Buffer.size, fragmentCount_eq hf, UInt16.toNat_ofNat',
      Nat.mod_eq_of_lt (by have := hf.count_le; omega)]
  have hslots : slots p.maxPlaintext [f] =
      (List.range (Blocks.count p.maxPlaintext f.data.length)).map (f, ·) := by
    simp [slots]
  simp only [VideoFrame.call, call, packetizeFrame, Buffer.isNull, Bool.false_or,
    decide_eq_true_eq, if_neg hsize]
  rw [exec_packetizeFragment, hcount, hslots, List.length_map, List.length_range]
  refine Prod.ext rfl (List.ext_getElem? fun j => ?_)
  simp only [packetizeFragment, List.getElem?_mapIdx, List.getElem?_map, Option.map_map]
  rw [← List.map_eq_flatMap, List.getElem?_map]
  rcases lt_or_ge j (Blocks.count p.maxPlaintext f.data.length) with hj | hj
  · rw [List.getElem?_range hj]
    simp only [Option.map_some, Function.comp_apply, sendSlot, slotHeader, maxPlaintext_advance,
      Buffer.size, fragmentCount_eq hf, Buffer.bytes]
  · rw [List.getElem?_eq_none (by simpa using hj)]
    rfl

/-- Sending a list of frames attempts one packet for each fragment, numbered through. -/
theorem exec_frames {frames : List VideoFrame}
    (hf : ∀ f ∈ frames, f.Sendable p.maxPlaintext) :
    Machine.exec (call lib) p (frames.map VideoFrame.call) =
      (p.advance (slots p.maxPlaintext frames).length,
        (slots p.maxPlaintext frames).mapIdx fun j s => (p.advance j).sendSlot lib s) := by
  induction frames generalizing p with
  | nil => simp [slots]
  | cons f frames ih =>
    have hslots : slots p.maxPlaintext (f :: frames) =
        slots p.maxPlaintext [f] ++ slots p.maxPlaintext frames := by
      simp [slots]
    have ih := ih (p := p.advance (slots p.maxPlaintext [f]).length)
      fun g hg => hf g (List.mem_cons_of_mem _ hg)
    rw [maxPlaintext_advance] at ih
    rw [List.map_cons, Machine.exec_cons, call_frame (hf f List.mem_cons_self), ih, hslots,
      List.mapIdx_append, List.length_append]
    simp only [advance_advance, Nat.add_comm (slots p.maxPlaintext [f]).length]

theorem slotHeader_fragmentOf (s : VideoFrame × ℕ) :
    FragmentOf p.maxPlaintext s.1 s.2 (p.slotHeader s)
      (Blocks.block p.maxPlaintext s.1.data s.2) where
  frameId := rfl
  timestampUs := rfl
  isKeyframe := videoHeader_isKeyframe ..
  index := rfl
  total := rfl
  payload := rfl

end Packetizer

/-- The packet opens to a fragment of a frame, in a session. -/
def Carries (lib : Mbedtls) (rx : Option SessionCrypto) (m : ℕ) (sessionId : UInt32)
    (f : VideoFrame) (i : ℕ) (packet : Bytes) : Prop :=
  ∃ header payload, openPacket lib rx packet = some (header, payload) ∧
    FragmentOf m f i header payload ∧ header.sessionId = sessionId

def sentPackets (lib : Mbedtls) (p : Packetizer) (frames : List VideoFrame) : List Bytes :=
  packets (Machine.exec (Packetizer.call lib) p (frames.map VideoFrame.call)).2

def sequenceOf (packet : Bytes) : UInt32 := (PacketHeader.ofBytes packet).sequence

theorem Packetizer.sendSlot_carries (hp : Paired lib p.crypto rx) {s : VideoFrame × ℕ}
    (h : (p.sendSlot lib s).packet = some packet) :
    Carries lib rx p.maxPlaintext p.sessionId s.1 s.2 packet ∧
      sequenceOf packet = p.packetSequence := by
  have hd : p.Describes (p.slotHeader s)
      (Buffer.data (Blocks.block p.maxPlaintext s.1.data s.2)).size :=
    videoHeader_describes (Blocks.length_block_le ..) ..
  have hopen := openPacket_sendPacket hp hd h
  refine ⟨⟨_, _, hopen, slotHeader_fragmentOf s, rfl⟩, ?_⟩
  rw [sequenceOf, ← openPacket_header hopen]
  rfl

section Headers

variable {Φ : PacketHeader → Prop}

def Packetizer.Attempt.Has (Φ : PacketHeader → Prop) (a : Packetizer.Attempt) : Prop :=
  ∀ packet, a.packet = some packet → Φ (PacketHeader.ofBytes packet)

theorem Packetizer.sendPacket_has (hΦ : Φ header) :
    (p.sendPacket lib header payload).2.Has Φ := by
  intro packet hpacket
  obtain ⟨rest, rfl⟩ := sendPacket_packet hpacket
  rwa [PacketHeader.ofBytes_bytes_append]

/-- The headers that a call makes in a session. -/
def Packetizer.Call.Makes (Φ : PacketHeader → Prop) (sessionId : UInt32) : Call → Prop
  | .video _ frameId timestampUs isKeyframe => ∀ (q : Packetizer) (i n : UInt16) (size : ℕ),
    q.sessionId = sessionId → i < n → Φ (q.videoHeader frameId timestampUs isKeyframe i n size)
  | .audio _ frameId timestampUs => ∀ (q : Packetizer) (size : ℕ),
    q.sessionId = sessionId → Φ (q.audioHeader frameId timestampUs size)

theorem ofNat_lt {i : ℕ} {n : UInt16} (h : i < n.toNat) : UInt16.ofNat i < n := by
  have := n.toNat_lt
  rw [UInt16.lt_iff_toNat_lt, UInt16.toNat_ofNat', Nat.mod_eq_of_lt (by omega)]
  exact h

theorem Packetizer.call_has (lib : Mbedtls) {k : Call} (hk : k.Makes Φ p.sessionId) :
    (p.call lib k).1.sessionId = p.sessionId ∧ ∀ a ∈ (p.call lib k).2, a.Has Φ := by
  refine ⟨sessionId_call lib p k, fun a ha => ?_⟩
  cases k with
  | video frameData frameId timestampUs isKeyframe =>
    obtain ⟨-, -, i, hi, rfl⟩ := p.mem_packetizeFrame_iff.mp ha
    exact sendPacket_has (hk (p.advance i) _ _ _ rfl (ofNat_lt hi))
  | audio audioData frameId timestampUs =>
    obtain ⟨-, rfl⟩ := p.mem_packetizeAudio ha
    exact sendPacket_has (hk p _ rfl)

theorem has_of_mem_packets {calls : List Packetizer.Call}
    (hcalls : ∀ k ∈ calls, k.Makes Φ p.sessionId)
    (h : packet ∈ packets (Machine.exec (Packetizer.call lib) p calls).2) :
    Φ (PacketHeader.ofBytes packet) := by
  obtain ⟨a, ha, hpacket⟩ := List.mem_filterMap.mp h
  refine (?_ : ∀ a ∈ (Machine.exec (Packetizer.call lib) p calls).2, a.Has Φ) a ha packet hpacket
  clear h ha
  induction calls generalizing p with
  | nil => simp
  | cons k calls ih =>
    obtain ⟨hsession, hhas⟩ := Packetizer.call_has lib (hcalls k List.mem_cons_self)
    rw [Machine.exec_cons, List.forall_mem_append]
    refine ⟨hhas, ih fun k' hk' => ?_⟩
    rw [hsession]
    exact hcalls k' (List.mem_cons_of_mem _ hk')

theorem sessionId_of_mem_packets {calls : List Packetizer.Call}
    (h : packet ∈ packets (Machine.exec (Packetizer.call lib) p calls).2) :
    (PacketHeader.ofBytes packet).sessionId = p.sessionId := by
  refine has_of_mem_packets (Φ := fun header => header.sessionId = p.sessionId)
    (fun k _ => ?_) h
  cases k with
  | video => exact fun q _ _ _ hq _ => hq
  | audio => exact fun q _ hq => hq

theorem fragmentIndex_lt_of_mem_packets {calls : List Packetizer.Call}
    (h : packet ∈ packets (Machine.exec (Packetizer.call lib) p calls).2) :
    (PacketHeader.ofBytes packet).fragmentIndex < (PacketHeader.ofBytes packet).fragmentCount := by
  refine has_of_mem_packets (Φ := fun header => header.fragmentIndex < header.fragmentCount)
    (fun k _ => ?_) h
  cases k with
  | video => exact fun q _ _ _ _ hlt => hlt
  | audio => exact fun q _ _ => show (0 : UInt16) < 1 by decide

end Headers

theorem mem_sentPackets_iff {frames : List VideoFrame}
    (hf : ∀ f ∈ frames, f.Sendable p.maxPlaintext) :
    packet ∈ sentPackets lib p frames ↔ ∃ j s, (slots p.maxPlaintext frames)[j]? = some s ∧
      ((p.advance j).sendSlot lib s).packet = some packet := by
  rw [sentPackets, Packetizer.exec_frames hf, packets, List.mem_filterMap]
  constructor
  · rintro ⟨attempt, ha, hpacket⟩
    obtain ⟨j, hj, rfl⟩ := List.mem_mapIdx.mp ha
    exact ⟨j, _, List.getElem?_eq_getElem hj, hpacket⟩
  · rintro ⟨j, s, hs, hpacket⟩
    obtain ⟨hj, rfl⟩ := List.getElem?_eq_some_iff.mp hs
    exact ⟨_, List.mem_mapIdx.mpr ⟨j, hj, rfl⟩, hpacket⟩

theorem length_sentPackets {p : Packetizer}
    (hk : ∀ c, p.crypto = some c → lib.EncryptSucceeds ∧ c.hasKeys = true) {fs : List VideoFrame}
    (hs : ∀ f ∈ fs, f.Sendable p.maxPlaintext) :
    (sentPackets lib p fs).length = (slots p.maxPlaintext fs).length := by
  rw [sentPackets, Packetizer.exec_frames hs, packets, List.filterMap_length_eq_length.mpr,
    List.length_mapIdx]
  intro attempt ha
  obtain ⟨j, hj, rfl⟩ := List.mem_mapIdx.mp ha
  exact Packetizer.sendPacket_isSome (p := p.advance j) hk _ _

theorem carries_of_mem_sentPackets (hp : Paired lib p.crypto rx) {frames : List VideoFrame}
    (hf : ∀ f ∈ frames, f.Sendable p.maxPlaintext) (h : packet ∈ sentPackets lib p frames) :
    ∃ f ∈ frames, ∃ i < Blocks.count p.maxPlaintext f.data.length,
      Carries lib rx p.maxPlaintext p.sessionId f i packet := by
  obtain ⟨j, s, hs, hpacket⟩ := (mem_sentPackets_iff hf).mp h
  obtain ⟨hfs, hi⟩ := mem_slots.mp (List.mem_of_getElem? hs)
  exact ⟨s.1, hfs, s.2, hi,
    (Packetizer.sendSlot_carries (p := p.advance j) hp hpacket).1⟩

end VeyraCam
