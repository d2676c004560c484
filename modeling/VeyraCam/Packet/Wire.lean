import VeyraCam.Packet.Transmission

/-! # What goes on the wire

Every packet is well formed, whatever is packetized and whichever encryptions
fail. A frame is sent whole as long as the number of its fragments fits 16 bits:
beyond that the count wraps around, and the fragments past it are not sent.
-/

namespace VeyraCam

/-- The packet carries the plaintext: as it is or, when a key is armed, sealed under the
packet's own sequence number and with its header as additional data. -/
def Conveys (lib : Mbedtls) (crypto : Option SessionCrypto) (plaintext packet : Bytes) : Prop :=
  match crypto with
  | none => packet.drop headerSize = plaintext
  | some crypto =>
    crypto.encrypt lib (.data plaintext) (PacketHeader.ofBytes packet).sequence
      (packet.take headerSize) = some (packet.drop headerSize)

/-- What the receiver relies on in a packet. -/
structure WellFormed (lib : Mbedtls) (crypto : Option SessionCrypto) (plaintext packet : Bytes) :
    Prop where
  length_le : packet.length ≤ maxPacketSize
  accepted : deserializeHeader packet = some (.ofBytes packet)
  length_eq : packet.length = headerSize + (PacketHeader.ofBytes packet).payloadLength.toNat
  index_lt : (PacketHeader.ofBytes packet).fragmentIndex <
    (PacketHeader.ofBytes packet).fragmentCount
  encrypted : (PacketHeader.ofBytes packet).isEncrypted = crypto.isSome
  conveys : Conveys lib crypto plaintext packet

namespace Packetizer

variable {lib : Mbedtls} {p : Packetizer} {header : PacketHeader} {plaintext packet : Bytes}

theorem wireLength_le {size : ℕ} (h : size ≤ p.maxPlaintext) :
    headerSize + p.wireLength size ≤ maxPacketSize := by
  unfold maxPlaintext maxPayloadSize maxPacketSize headerSize tagSize at h
  unfold wireLength maxPacketSize headerSize tagSize
  split_ifs at h ⊢ <;> omega

theorem audioHeader_describes {size : ℕ} (h : size ≤ p.maxPlaintext) (frameId : UInt32)
    (timestampUs : UInt64) : p.Describes (p.audioHeader frameId timestampUs size) size where
  magic := rfl
  version := rfl
  stream := .inr rfl
  sequence := rfl
  encrypted := wireFlags_audio_encrypted p
  length := by
    simp only [audioHeader, UInt16.toNat_ofNat']
    exact Nat.mod_eq_of_lt (wireLength_lt h)

theorem sendPacket_eq (h : (p.sendPacket lib header (.data plaintext)).2.packet = some packet) :
    ∃ rest, packet = header.bytes ++ rest ∧ rest.length = p.wireLength plaintext.length ∧
      match p.crypto with
      | none => rest = plaintext
      | some crypto =>
        crypto.encrypt lib (.data plaintext) p.packetSequence header.bytes = some rest := by
  unfold sendPacket at h
  unfold wireLength
  cases hc : p.crypto with
  | none =>
    rw [hc] at h
    exact ⟨plaintext, (Option.some.inj h).symm, rfl, rfl⟩
  | some crypto =>
    rw [hc] at h
    obtain ⟨sealed, hsealed, rfl⟩ := Option.map_eq_some_iff.mp h
    exact ⟨sealed, rfl, SessionCrypto.length_encrypt hsealed, hsealed⟩

theorem sendPacket_conveys (hs : header.sequence = p.packetSequence)
    (h : (p.sendPacket lib header (.data plaintext)).2.packet = some packet) :
    Conveys lib p.crypto plaintext packet := by
  obtain ⟨rest, rfl, -, hrest⟩ := sendPacket_eq h
  unfold Conveys
  rw [PacketHeader.ofBytes_bytes_append, hs, List.drop_left' header.length_bytes,
    List.take_left' header.length_bytes]
  exact hrest

theorem sendPacket_wellFormed (hd : p.Describes header plaintext.length)
    (hsize : plaintext.length ≤ p.maxPlaintext)
    (hindex : header.fragmentIndex < header.fragmentCount)
    (h : (p.sendPacket lib header (.data plaintext)).2.packet = some packet) :
    WellFormed lib p.crypto plaintext packet := by
  have hconveys := sendPacket_conveys hd.sequence h
  obtain ⟨rest, rfl, hlength, -⟩ := sendPacket_eq h
  have hheader := header.ofBytes_bytes_append rest
  have htotal : (header.bytes ++ rest).length = headerSize + p.wireLength plaintext.length := by
    rw [List.length_append, PacketHeader.length_bytes, hlength]
  constructor
  · rw [htotal]
    exact wireLength_le hsize
  · rw [hheader]
    exact deserializeHeader_bytes_append hd.magic hd.version rest
  · rw [hheader, hd.length, htotal]
  · rwa [hheader]
  · rw [hheader]
    exact hd.encrypted
  · exact hconveys

def Call.buffer : Call → Buffer
  | .video frameData _ _ _ => frameData
  | .audio audioData _ _ => audioData

def Call.chunk (m : ℕ) : Call → ℕ → Bytes
  | .video frameData _ _ _, i => Blocks.block m frameData.bytes i
  | .audio audioData _ _, _ => audioData.bytes

/-- A packet with the call that returned it and the library it was made with. -/
structure Production where
  lib : Mbedtls
  call : Call
  packet : Bytes

/-- A call, made while the library behaves in a given way. -/
def produce (p : Packetizer) (k : Mbedtls × Call) : Packetizer × List Production :=
  ((p.call k.1 k.2).1, (packets (p.call k.1 k.2).2).map (⟨k.1, k.2, ·⟩))

def Production.WellFormed (crypto : Option SessionCrypto) (m : ℕ) (o : Production) : Prop :=
  VeyraCam.WellFormed o.lib crypto
    (o.call.chunk m (PacketHeader.ofBytes o.packet).fragmentIndex.toNat) o.packet

theorem call_wellFormed {k : Call} (hk : k.buffer.isNull = false)
    (h : packet ∈ packets (p.call lib k).2) :
    WellFormed lib p.crypto
      (k.chunk p.maxPlaintext (PacketHeader.ofBytes packet).fragmentIndex.toNat) packet := by
  obtain ⟨a, ha, hpacket⟩ := List.mem_filterMap.mp h
  cases k with
  | video frameData frameId timestampUs isKeyframe =>
    obtain ⟨-, -, i, hi, rfl⟩ := p.mem_packetizeFrame_iff.mp ha
    have hle := Blocks.length_block_le p.maxPlaintext frameData.bytes i
    have hindex : (PacketHeader.ofBytes packet).fragmentIndex.toNat = i := by
      obtain ⟨rest, rfl⟩ := sendPacket_packet hpacket
      rw [PacketHeader.ofBytes_bytes_append]
      exact UInt16.toNat_ofNat_of_lt' (hi.trans (UInt16.toNat_lt _))
    rw [hindex]
    have hd := videoHeader_describes (p := p.advance i) hle frameId timestampUs isKeyframe
      (.ofNat i) (p.fragmentCount frameData.size)
    exact sendPacket_wellFormed (p := p.advance i) hd hle (ofNat_lt hi) hpacket
  | audio audioData frameId timestampUs =>
    obtain ⟨hsize, rfl⟩ := p.mem_packetizeAudio ha
    cases audioData with
    | null n => cases hk
    | data bytes =>
      have hle : bytes.length ≤ p.maxPlaintext := by
        refine (hsize rfl).trans ?_
        unfold maxPlaintext
        split_ifs <;> omega
      exact sendPacket_wellFormed (audioHeader_describes hle ..) hle (by decide : (0 : UInt16) < 1)
        hpacket

/-- Every packet of every run of calls with data is well formed. -/
theorem wellFormed_of_mem_produce (p : Packetizer) {calls : List (Mbedtls × Call)}
    (hcalls : ∀ k ∈ calls, k.2.buffer.isNull = false) :
    ∀ o ∈ (Machine.exec produce p calls).2, o.WellFormed p.crypto p.maxPlaintext := by
  induction calls generalizing p with
  | nil => simp
  | cons k calls ih =>
    obtain ⟨hk, hcalls⟩ := List.forall_mem_cons.mp hcalls
    have ih := ih (p.produce k).1 hcalls
    have hcrypto : (p.produce k).1.crypto = p.crypto := crypto_call k.1 p k.2
    rw [hcrypto, maxPlaintext_congr hcrypto] at ih
    rw [Machine.exec_cons, List.forall_mem_append]
    refine ⟨fun o ho => ?_, ih⟩
    obtain ⟨packet, hpacket, rfl⟩ := List.mem_map.mp ho
    exact call_wellFormed hk hpacket

set_option maxRecDepth 100000 in
theorem wellFormed_of_mem_produce_sample :
    let p : Packetizer := ⟨7, 0, some .sample⟩
    let calls : List (Mbedtls × Call) :=
      [(.sample, .video (.data [1, 2, 3]) 1 5 true), (.sample, .audio (.data [4]) 1 6)]
    (∀ o ∈ (Machine.exec produce p calls).2, o.WellFormed p.crypto p.maxPlaintext) ∧
      (Machine.exec produce p calls).2.length = 2 :=
  ⟨wellFormed_of_mem_produce _ (by simp [Call.buffer, Buffer.isNull]), by decide⟩

section Whole

variable {frameData : Bytes} {frameId : UInt32} {timestampUs : UInt64} {isKeyframe : Bool}

/-- The packets of a frame carry all of it, numbered from 0 on, with their number in each. -/
structure Whole (lib : Mbedtls) (crypto : Option SessionCrypto) (frameData : Bytes)
    (ps : List Bytes) : Prop where
  plaintexts : ∃ chunks, List.Forall₂ (Conveys lib crypto) chunks ps ∧ chunks.flatten = frameData
  indices : ps.map (fun packet => (PacketHeader.ofBytes packet).fragmentIndex.toNat) =
    List.range ps.length
  counts : ∀ packet ∈ ps, (PacketHeader.ofBytes packet).fragmentCount.toNat = ps.length

def fragments (p : Packetizer) (frameSize : ℕ) : ℕ :=
  (frameSize + p.maxPlaintext - 1) % 2 ^ 64 / p.maxPlaintext

theorem toNat_fragmentCount (p : Packetizer) (frameSize : ℕ) :
    (p.fragmentCount frameSize).toNat = p.fragments frameSize % 2 ^ 16 := by
  rw [fragmentCount, UInt16.toNat_ofNat', fragments]

/-- If the size and the largest plaintext sum up beyond `size_t`, there are no fragments. -/
theorem fragments_eq {frameSize : ℕ} (h : frameSize < 2 ^ 64) :
    p.fragments frameSize = 0 ∨ p.fragments frameSize = Blocks.count p.maxPlaintext frameSize := by
  have hpos := p.maxPlaintext_pos
  have hle := p.maxPlaintext_le
  unfold fragments Blocks.count
  rcases lt_or_ge (frameSize + p.maxPlaintext - 1) (2 ^ 64) with hlt | hge
  · exact .inr (by rw [Nat.mod_eq_of_lt hlt])
  · refine .inl (Nat.div_eq_of_lt ?_)
    rw [Nat.mod_eq_sub_mod hge, Nat.mod_eq_of_lt (by omega)]
    omega

def sendFragment (lib : Mbedtls) (p : Packetizer) (frameData : Bytes) (frameId : UInt32)
    (timestampUs : UInt64) (isKeyframe : Bool) (i : ℕ) : Attempt :=
  let chunk := Blocks.block p.maxPlaintext frameData i
  ((p.advance i).sendPacket lib ((p.advance i).videoHeader frameId timestampUs isKeyframe (.ofNat i)
    (p.fragmentCount frameData.length) chunk.length) (.data chunk)).2

theorem packetizeFrame_snd : (p.packetizeFrame lib (.data frameData) frameId timestampUs
    isKeyframe).2 = (List.range (p.fragmentCount frameData.length).toNat).map
      (p.sendFragment lib frameData frameId timestampUs isKeyframe) := by
  unfold packetizeFrame
  rw [Buffer.isNull, Bool.false_or]
  split_ifs with hempty
  · have hsize : frameData.length = 0 := by simpa [Buffer.size] using hempty
    have hnone : p.fragments 0 = 0 := by
      refine Nat.div_eq_of_lt ((Nat.mod_le _ _).trans_lt ?_)
      have := p.maxPlaintext_pos
      omega
    rw [hsize, toNat_fragmentCount, hnone]
    rfl
  · rw [exec_packetizeFragment, List.map_eq_flatMap]
    rfl

theorem forall₂_packets {f : ℕ → Attempt} {l : List ℕ} (h : ∀ i ∈ l, (f i).packet.isSome = true) :
    List.Forall₂ (fun i packet => (f i).packet = some packet) l (packets (l.map f)) := by
  induction l with
  | nil => exact .nil
  | cons i l ih =>
    obtain ⟨hi, hl⟩ := List.forall_mem_cons.mp h
    obtain ⟨packet, hpacket⟩ := Option.isSome_iff_exists.mp hi
    rw [List.map_cons, packets, List.filterMap_cons_some hpacket]
    exact .cons hpacket (ih hl)

theorem packets_packetizeFrame
    (hs : ∀ a ∈ (p.packetizeFrame lib (.data frameData) frameId timestampUs isKeyframe).2,
      a.packet.isSome = true) {ps : List Bytes}
    (hps : ps = packets (p.packetizeFrame lib (.data frameData) frameId timestampUs isKeyframe).2)
    {n : ℕ} (hn : n = (p.fragmentCount frameData.length).toNat) :
    List.Forall₂ (Conveys lib p.crypto)
        ((List.range n).map (Blocks.block p.maxPlaintext frameData)) ps ∧
      (List.range n).map UInt16.ofNat = ps.map (PacketHeader.ofBytes · |>.fragmentIndex) ∧
      (List.range n).map (fun _ => p.fragmentCount frameData.length) =
        ps.map (PacketHeader.ofBytes · |>.fragmentCount) := by
  rw [packetizeFrame_snd, ← hn] at hs hps
  have hall := forall₂_packets fun i hi => hs _ (List.mem_map_of_mem hi)
  rw [← hps] at hall
  have hfield {α : Type} (field : PacketHeader → α) (value : ℕ → α)
      (hvalue : ∀ i, field ((p.advance i).videoHeader frameId timestampUs isKeyframe (.ofNat i)
        (p.fragmentCount frameData.length) (Blocks.block p.maxPlaintext frameData i).length) =
          value i) :
      (List.range n).map value = ps.map (field <| PacketHeader.ofBytes ·) := by
    rw [← List.forall₂_eq_eq_eq, List.forall₂_map_left_iff, List.forall₂_map_right_iff]
    refine hall.imp fun i packet h => ?_
    obtain ⟨rest, rfl⟩ := sendPacket_packet h
    rw [PacketHeader.ofBytes_bytes_append]
    exact (hvalue i).symm
  refine ⟨?_, hfield (·.fragmentIndex) _ fun _ => rfl, hfield (·.fragmentCount) _ fun _ => rfl⟩
  rw [List.forall₂_map_left_iff]
  exact hall.imp fun i packet h => sendPacket_conveys (p := p.advance i) rfl h

theorem length_flatten_of_conveys {crypto : Option SessionCrypto} {chunks chunks' ps : List Bytes}
    (h : List.Forall₂ (Conveys lib crypto) chunks ps)
    (h' : List.Forall₂ (Conveys lib crypto) chunks' ps) :
    chunks.flatten.length = chunks'.flatten.length := by
  induction h generalizing chunks' with
  | nil =>
    cases h'
    rfl
  | @cons chunk packet chunks ps hc _ ih =>
    obtain _ | ⟨hc', h'⟩ := h'
    rename_i chunk' chunks'
    have hlength : chunk.length = chunk'.length := by
      unfold Conveys at hc hc'
      cases crypto with
      | none => rw [← hc, ← hc']
      | some crypto =>
        have hsealed := (SessionCrypto.length_encrypt hc).symm.trans
          (SessionCrypto.length_encrypt hc')
        exact Nat.add_right_cancel hsealed
    rw [List.flatten_cons, List.flatten_cons, List.length_append, List.length_append, hlength,
      ih h']

/-- A frame with no more fragments than 16 bits can count is sent whole, or not at all. -/
theorem whole_of_fragments_lt (hsize : frameData.length < 2 ^ 64)
    (hs : ∀ a ∈ (p.packetizeFrame lib (.data frameData) frameId timestampUs isKeyframe).2,
      a.packet.isSome = true) (hn : p.fragments frameData.length < 2 ^ 16) {ps : List Bytes}
    (hps : ps = packets (p.packetizeFrame lib (.data frameData) frameId timestampUs isKeyframe).2) :
    ps = [] ∨ Whole lib p.crypto frameData ps := by
  have hcount := (p.toNat_fragmentCount frameData.length).trans (Nat.mod_eq_of_lt hn)
  obtain ⟨hconveys, hindices, hcounts⟩ := packets_packetizeFrame hs hps hcount.symm
  have hlength : p.fragments frameData.length = ps.length := by
    simpa using congrArg List.length hindices
  rcases fragments_eq (p := p) hsize with hzero | hblocks
  · exact .inl (List.eq_nil_of_length_eq_zero (hlength.symm.trans hzero))
  refine .inr ⟨⟨_, hconveys, ?_⟩, ?_, fun packet hpacket => ?_⟩
  · rw [hblocks, ← List.flatMap_def]
    exact Blocks.flatMap_block_count p.maxPlaintext_pos frameData
  · have hmap := congrArg (List.map UInt16.toNat) hindices
    rw [List.map_map, List.map_map] at hmap
    refine hmap.symm.trans ?_
    rw [← hlength]
    refine (List.map_congr_left fun i hi => ?_).trans (List.map_id _)
    exact UInt16.toNat_ofNat_of_lt' ((List.mem_range.mp hi).trans hn)
  · have hmem := List.mem_map_of_mem (f := (PacketHeader.ofBytes · |>.fragmentCount)) hpacket
    rw [← hcounts] at hmem
    obtain ⟨-, -, h⟩ := List.mem_map.mp hmem
    rw [← h, hcount, hlength]

/-- When the count wraps around to a number other than 0, the frame is truncated. -/
theorem not_whole_of_fragments_ge (hsize : frameData.length < 2 ^ 64)
    (hs : ∀ a ∈ (p.packetizeFrame lib (.data frameData) frameId timestampUs isKeyframe).2,
      a.packet.isSome = true) (hn : 2 ^ 16 ≤ p.fragments frameData.length)
    (hd : ¬ 2 ^ 16 ∣ p.fragments frameData.length) {ps : List Bytes}
    (hps : ps = packets (p.packetizeFrame lib (.data frameData) frameId timestampUs isKeyframe).2) :
    ¬ (ps = [] ∨ Whole lib p.crypto frameData ps) := by
  obtain ⟨hconveys, hindices, -⟩ := packets_packetizeFrame hs hps
    (p.toNat_fragmentCount frameData.length).symm
  have hlength : p.fragments frameData.length % 2 ^ 16 = ps.length := by
    simpa using congrArg List.length hindices
  rintro (rfl | hwhole)
  · exact hd (Nat.dvd_of_mod_eq_zero hlength)
  obtain ⟨chunks, hchunks, hflatten⟩ := hwhole.plaintexts
  have hblocks := (fragments_eq (p := p) hsize).resolve_left (by omega)
  have hlt : p.fragments frameData.length % 2 ^ 16 <
      Blocks.count p.maxPlaintext frameData.length := by
    have := Nat.mod_lt (p.fragments frameData.length) (Nat.two_pow_pos 16)
    omega
  have hsent := length_flatten_of_conveys hconveys hchunks
  rw [hflatten, ← List.flatMap_def, Blocks.flatMap_block, List.length_take] at hsent
  rw [Blocks.lt_count_iff p.maxPlaintext_pos] at hlt
  omega

/-- While no encryption fails, a frame is sent whole or not at all exactly when the number of
its fragments fits 16 bits or is a multiple of `2 ^ 16`. -/
theorem packetizeFrame_whole_iff (hsize : frameData.length < 2 ^ 64)
    (hs : ∀ a ∈ (p.packetizeFrame lib (.data frameData) frameId timestampUs isKeyframe).2,
      a.packet.isSome = true) :
    (packets (p.packetizeFrame lib (.data frameData) frameId timestampUs isKeyframe).2 = [] ∨
      Whole lib p.crypto frameData
        (packets (p.packetizeFrame lib (.data frameData) frameId timestampUs isKeyframe).2)) ↔
      p.fragments frameData.length < 2 ^ 16 ∨ 2 ^ 16 ∣ p.fragments frameData.length := by
  constructor
  · intro h
    by_contra hn
    push Not at hn
    exact not_whole_of_fragments_ge hsize hs hn.1 hn.2 rfl h
  · rintro (hn | hd)
    · exact whole_of_fragments_lt hsize hs hn rfl
    · have hindices := (packets_packetizeFrame hs rfl
        (p.toNat_fragmentCount frameData.length).symm).2.1
      rw [Nat.mod_eq_zero_of_dvd hd] at hindices
      exact .inl (List.map_eq_nil_iff.mp hindices.symm)

set_option maxRecDepth 100000 in
theorem packetizeFrame_whole_iff_sample :
    let p : Packetizer := ⟨7, 0, some .sample⟩
    packets (p.packetizeFrame .sample (.data [1, 2, 3]) 1 5 true).2 = [] ∨
      Whole .sample p.crypto [1, 2, 3]
        (packets (p.packetizeFrame .sample (.data [1, 2, 3]) 1 5 true).2) :=
  (packetizeFrame_whole_iff (by decide) (by decide)).mpr (.inl (by decide))

/-- Of a plaintext frame of 65537 fragments, one is sent. -/
theorem not_packetizeFrame_whole :
    let p : Packetizer := ⟨7, 0, none⟩
    let frameData : Bytes := .replicate (2 ^ 16 * 1166 + 1) 0
    ¬ ((∀ a ∈ (p.packetizeFrame .sample (.data frameData) 1 5 true).2, a.packet.isSome = true) →
      packets (p.packetizeFrame .sample (.data frameData) 1 5 true).2 = [] ∨
        Whole .sample p.crypto frameData
          (packets (p.packetizeFrame .sample (.data frameData) 1 5 true).2)) := by
  intro p frameData h
  have hs : ∀ a ∈ (p.packetizeFrame .sample (.data frameData) 1 5 true).2,
      a.packet.isSome = true := by
    intro a ha
    obtain ⟨-, -, i, -, rfl⟩ := p.mem_packetizeFrame_iff.mp ha
    rfl
  have hlength : frameData.length = 2 ^ 16 * 1166 + 1 := List.length_replicate
  have hfragments : p.fragments frameData.length = 65537 := by rw [hlength]; decide
  exact not_whole_of_fragments_ge (by rw [hlength]; decide) hs (by rw [hfragments]; decide)
    (by rw [hfragments]; decide) rfl (h hs)

end Whole

end Packetizer

end VeyraCam
