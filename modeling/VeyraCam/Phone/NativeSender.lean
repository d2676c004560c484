import VeyraCam.Packet.Transmission

/-! # The native sender

`NativeSenderContext` counts video and audio frames with counters of their own,
from 1 in a new session, and hands them to its packetizer. A frame of a
multiple of 65536 fragments moves the counter but is cut into no packets, as
the fragment count is cast to 16 bits.
-/

namespace VeyraCam

/-- What `NativeSenderContext` sends media with, once a UDP destination is configured. -/
structure NativeSender where
  packetizer : Packetizer
  frameCounter : UInt32 := 0
  audioCounter : UInt32 := 0

/-- A call of `SendVideoNal` or `SendAudioFrame`. -/
inductive Send where
  | videoNal (nalData : Buffer) (isKeyframe : Bool) (timestampUs : UInt64)
  | audioFrame (audioData : Buffer) (timestampUs : UInt64)

namespace NativeSender

variable (lib : Mbedtls)

/-- `NativeSenderContext::SendVideoNal`, with the packets it attempts. -/
def sendVideoNal (s : NativeSender) (nalData : Buffer) (isKeyframe : Bool) (timestampUs : UInt64) :
    NativeSender × List Packetizer.Attempt :=
  if nalData.size = 0 then (s, [])
  else
    let frameCounter := s.frameCounter + 1
    let (packetizer, attempts) :=
      s.packetizer.packetizeFrame lib nalData frameCounter timestampUs isKeyframe
    ({ s with packetizer, frameCounter }, attempts)

def sendAudioFrame (s : NativeSender) (audioData : Buffer) (timestampUs : UInt64) :
    NativeSender × List Packetizer.Attempt :=
  if audioData.size = 0 then (s, [])
  else
    let audioCounter := s.audioCounter + 1
    let (packetizer, attempts) :=
      s.packetizer.packetizeAudio lib audioData audioCounter timestampUs
    ({ s with packetizer, audioCounter }, attempts)

def send (s : NativeSender) : Send → NativeSender × List Packetizer.Attempt
  | .videoNal nalData isKeyframe timestampUs => s.sendVideoNal lib nalData isKeyframe timestampUs
  | .audioFrame audioData timestampUs => s.sendAudioFrame lib audioData timestampUs

def sessionPackets (sessionId : UInt32) (crypto : SessionCrypto) (sends : List Send) :
    List Bytes :=
  packets (Machine.exec (send lib) ⟨⟨sessionId, 0, some crypto⟩, 0, 0⟩ sends).2

def KeyframeFirst (sends : List Send) : Prop :=
  ∀ isKeyframe, sends.findSome? (fun
    | .videoNal nalData isKeyframe _ => if nalData.size = 0 then none else some isKeyframe
    | .audioFrame _ _ => none) = some isKeyframe → isKeyframe = true

variable {lib}

theorem exists_calls (lib : Mbedtls) (s : NativeSender) (sends : List Send) :
    ∃ calls, (Machine.exec (send lib) s sends).2 =
      (Machine.exec (Packetizer.call lib) s.packetizer calls).2 := by
  induction sends generalizing s with
  | nil => exact ⟨[], rfl⟩
  | cons k sends ih =>
    obtain ⟨calls, hcalls⟩ := ih (s.send lib k).1
    have hstep : ∃ ks, (s.send lib k).1.packetizer =
        (Machine.exec (Packetizer.call lib) s.packetizer ks).1 ∧
        (s.send lib k).2 = (Machine.exec (Packetizer.call lib) s.packetizer ks).2 := by
      cases k with
      | videoNal nalData isKeyframe timestampUs =>
        simp only [send, sendVideoNal]
        split_ifs
        · exact ⟨[], rfl, rfl⟩
        · exact ⟨[.video nalData (s.frameCounter + 1) timestampUs isKeyframe],
            by simp [Packetizer.call]⟩
      | audioFrame audioData timestampUs =>
        simp only [send, sendAudioFrame]
        split_ifs
        · exact ⟨[], rfl, rfl⟩
        · exact ⟨[.audio audioData (s.audioCounter + 1) timestampUs],
            by simp [Packetizer.call]⟩
    obtain ⟨ks, hstate, hattempts⟩ := hstep
    refine ⟨ks ++ calls, ?_⟩
    rw [Machine.exec_cons, Machine.exec_append, hattempts, hcalls, hstate]

theorem fragmentIndex_lt_of_mem_sessionPackets {sessionId : UInt32} {crypto : SessionCrypto}
    {sends : List Send} {packet : Bytes}
    (h : packet ∈ sessionPackets lib sessionId crypto sends) :
    (PacketHeader.ofBytes packet).fragmentIndex < (PacketHeader.ofBytes packet).fragmentCount := by
  obtain ⟨calls, hcalls⟩ :=
    exists_calls lib ⟨⟨sessionId, 0, some crypto⟩, 0, 0⟩ sends
  rw [sessionPackets, hcalls] at h
  exact fragmentIndex_lt_of_mem_packets h

def silent (p : Packetizer) : Send :=
  .videoNal (.data (.replicate (65536 * p.maxPlaintext) 0)) true 0

theorem fragmentCount_silent (p : Packetizer) : p.fragmentCount (65536 * p.maxPlaintext) = 0 := by
  have hpos := p.maxPlaintext_pos
  have hle := p.maxPlaintext_le
  have hdiv : (65536 * p.maxPlaintext + p.maxPlaintext - 1) / p.maxPlaintext = 65536 :=
    Nat.div_eq_of_lt_le (by omega) (by omega)
  rw [Packetizer.fragmentCount, Nat.mod_eq_of_lt (by omega), hdiv]
  rfl

theorem send_silent (s : NativeSender) :
    s.send lib (silent s.packetizer) = ({ s with frameCounter := s.frameCounter + 1 }, []) := by
  have hpos := s.packetizer.maxPlaintext_pos
  have hsize : ¬ 65536 * s.packetizer.maxPlaintext = 0 := by omega
  simp [send, silent, sendVideoNal, Packetizer.packetizeFrame, Buffer.isNull, Buffer.size, hsize,
    fragmentCount_silent]

theorem exec_silent (s : NativeSender) (n : ℕ) :
    Machine.exec (send lib) s (.replicate n (silent s.packetizer)) =
      ({ s with frameCounter := s.frameCounter + .ofNat n }, []) := by
  induction n generalizing s with
  | zero => simp
  | succ n ih =>
    have ih := ih { s with frameCounter := s.frameCounter + 1 }
    rw [List.replicate_succ, Machine.exec_cons, send_silent, ih, UInt32.add_assoc,
      Nat.add_comm n 1, UInt32.ofNat_add]
    rfl

theorem exists_sessionPackets_eq (lib : Mbedtls) (sessionId : UInt32) (crypto : SessionCrypto)
    (frameId : UInt32) (timestampUs : UInt64) : ∃ sends, KeyframeFirst sends ∧
      sessionPackets lib sessionId crypto sends =
        sentPackets lib ⟨sessionId, 0, some crypto⟩ [⟨frameId, timestampUs, true, [0]⟩] := by
  -- the counter comes round to the frame before while nothing is sent
  refine ⟨.replicate (frameId.toNat + (2 ^ 32 - 1)) (silent ⟨sessionId, 0, some crypto⟩) ++
    [.videoNal (.data [0]) true timestampUs], ?_, ?_⟩
  · intro isKeyframe h
    obtain ⟨k, hk, he⟩ := List.exists_of_findSome?_eq_some h
    rcases List.mem_append.mp hk with hk | hk
    · rw [List.eq_of_mem_replicate hk] at he
      simp only [silent] at he
      split_ifs at he
      exact (Option.some.inj he).symm
    · rw [List.mem_singleton.mp hk] at he
      exact (Option.some.inj he).symm
  · have hcounter : (0 : UInt32) + .ofNat (frameId.toNat + (2 ^ 32 - 1)) + 1 = frameId := by
      rw [← UInt32.toNat_inj]
      have := frameId.toNat_lt
      simp only [UInt32.toNat_add, UInt32.toNat_ofNat', UInt32.toNat_zero, UInt32.toNat_one]
      omega
    rw [sessionPackets, Machine.exec_concat, exec_silent, List.nil_append]
    simp only [send, sendVideoNal, hcounter]
    simp [sentPackets, VideoFrame.call, Packetizer.call, Buffer.size]

end NativeSender

end VeyraCam
