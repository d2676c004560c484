import VeyraCam.Packet.Receiver

/-! # Packets of a foreign session

A packet of another session than the locked one is refused, but its sequence
number has been committed to the replay window by then. So it leaves the
reassembler as it was exactly when the window refuses it too.
-/

namespace VeyraCam

variable {lib : Mbedtls}

theorem ReplayFilter.Tracks.accept_snd_ne {A : Set ℕ} {f : ReplayFilter} (h : f.Tracks A)
    {s : UInt32} (ha : (f.accept s).1 = true) : (f.accept s).2 ≠ f := by
  intro he
  have hinsert := (h.accept s).2 ha
  rw [he] at hinsert
  -- the filter would know the number it is about to accept
  exact ((hinsert.accept s).1.mp ha).1 (Set.mem_insert _ _)

namespace Receiver

variable {s : Receiver} {packetData : Bytes}

/-- The packet passes the header, stream and decryption checks, but is of another session than
the locked one. -/
def Foreign (lib : Mbedtls) (s : Receiver) (packetData : Bytes) : Prop :=
  s.reassembler.sessionLocked = true ∧
    ∃ opened ∈ FrameReassembler.openPacket lib s.reassembler.crypto packetData,
      opened.1.sessionId ≠ s.reassembler.expectedSessionId

instance : Decidable (Foreign lib s packetData) :=
  inferInstanceAs (Decidable (_ ∧
    ∃ opened ∈ FrameReassembler.openPacket lib s.reassembler.crypto packetData, _))

/-- The packet is refused and changes nothing, so that all later runs are as without it. -/
def Ignores (lib : Mbedtls) (s : Receiver) (packetData : Bytes) : Prop :=
  let result := s.reassembler.pushPacket lib ⟨s.epoch, s.reassembler.crypto, packetData⟩ packetData
  result.accepted = false ∧ result.state = s.reassembler ∧
    ∀ later, (Machine.exec (operate lib) (s.operate lib (.pushPacket packetData)).1 later).2 =
      (Machine.exec (operate lib) s later).2

theorem Foreign.pushPacket_eq (h : s.Foreign lib packetData) :
    s.reassembler.pushPacket lib ⟨s.epoch, s.reassembler.crypto, packetData⟩ packetData =
      ⟨false, { s.reassembler with
        replayFilter := (s.reassembler.replayFilter.accept
          (PacketHeader.ofBytes packetData).sequence).2 }, []⟩ := by
  obtain ⟨hlocked, ⟨header, payload⟩, ho, hsession⟩ := h
  rw [FrameReassembler.pushPacket_of_some ho, ← FrameReassembler.openPacket_header ho]
  cases hf : (s.reassembler.replayFilter.accept header.sequence).1 with
  | false =>
    rw [FrameReassembler.acceptPacket_of_refused hf, ReplayFilter.accept_snd_of_refused hf]
  | true => exact FrameReassembler.acceptPacket_of_foreign hf hlocked hsession _ _

theorem tracks_after (lib : Mbedtls) (ops : List Operation) :
    ∃ A, (Machine.exec (operate lib) {} ops).1.reassembler.replayFilter.Tracks A := by
  apply Machine.invariant (I := fun s : Receiver => ∃ A, s.reassembler.replayFilter.Tracks A)
  · rintro s op ⟨A, ht⟩
    cases op with
    | pushPacket packetData =>
      obtain ⟨A', ht', -⟩ := FrameReassembler.pushPacket_tracks lib ht
        ⟨s.epoch, s.reassembler.crypto, packetData⟩ packetData
      exact ⟨A', ht'⟩
    | setCrypto | reset => exact ⟨∅, ReplayFilter.tracks_empty⟩
    | setExpectedSessionId => exact ⟨A, ht⟩
  · exact ⟨∅, ReplayFilter.tracks_empty⟩

/-- In every run, a foreign packet is ignored exactly when the replay filter refuses its number. -/
theorem ignores_foreign_iff {ops : List Operation}
    (h : Foreign lib (Machine.exec (operate lib) {} ops).1 packetData) :
    Ignores lib (Machine.exec (operate lib) {} ops).1 packetData ↔
      ((Machine.exec (operate lib) {} ops).1.reassembler.replayFilter.accept
        (PacketHeader.ofBytes packetData).sequence).1 = false := by
  obtain ⟨A, ht⟩ := tracks_after lib ops
  generalize (Machine.exec (operate lib) {} ops).1 = s at h ht ⊢
  have hpush := h.pushPacket_eq
  constructor
  · rintro ⟨-, hstate, -⟩
    rw [hpush] at hstate
    refine Bool.eq_false_of_not_eq_true fun hf => ht.accept_snd_ne hf ?_
    exact congrArg FrameReassembler.replayFilter hstate
  · intro hf
    rw [ReplayFilter.accept_snd_of_refused hf] at hpush
    have hstep : (s.operate lib (.pushPacket packetData)).1 = s := by
      simp [operate, hpush]
    refine ⟨by rw [hpush], by rw [hpush], fun later => ?_⟩
    rw [hstep]

set_option maxRecDepth 100000 in
theorem ignores_foreign_iff_sample :
    Ignores .sample (Machine.exec (operate .sample) {} [.pushPacket (samplePacket none)]).1
      (sampleKeyframe 8 2 0) :=
  (ignores_foreign_iff (by decide)).mpr (by decide)

set_option maxRecDepth 100000 in
/-- The number 100 of a foreign packet moves the window past the next packet of the session. -/
theorem not_ignores_foreign :
    ¬ (Foreign .sample (Machine.exec (operate .sample) {} [.pushPacket (samplePacket none)]).1
        (sampleKeyframe 8 2 100) →
      Ignores .sample (Machine.exec (operate .sample) {} [.pushPacket (samplePacket none)]).1
        (sampleKeyframe 8 2 100)) := by
  intro h
  obtain ⟨-, -, hlater⟩ := h (by decide)
  exact absurd (hlater [.pushPacket (sampleKeyframe 7 2 1)]) (by decide)

end Receiver

end VeyraCam
