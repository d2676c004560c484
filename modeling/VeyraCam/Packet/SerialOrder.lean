import Mathlib.Data.List.Chain
import VeyraCam.Packet.Holes
import VeyraCam.Packet.Reception

/-! # The order of emitted frames

Frame identifiers wrap around, so one comes before another when it is less than
half the number range behind it. The staleness check compares identifiers as
numbers first and lets through some that are not ahead of the last one emitted.
Without them, each frame is ahead of the one before.
-/

namespace VeyraCam

variable {ω : Type*} {lib : Mbedtls}

/-- The second identifier is ahead of the first, as wrapping counters go. -/
def Precedes (a b : UInt32) : Prop := 0 < (b - a).toNat ∧ (b - a).toNat < 2 ^ 31

instance : DecidableRel Precedes := fun a b =>
  inferInstanceAs (Decidable (0 < (b - a).toNat ∧ (b - a).toNat < 2 ^ 31))

/-- The identifier is half the number range or more above the last one as a number, or exactly
at the far end of what the staleness check covers. -/
def Strays (last frameId : UInt32) : Prop :=
  last < frameId ∧ 0x80000000 ≤ frameId - last ∨
    last - frameId = 0x7FFFFFFF ∨ last - frameId = 0x80000000

instance (last frameId : UInt32) : Decidable (Strays last frameId) :=
  inferInstanceAs (Decidable (_ ∨ _))

theorem precedes_iff_not_strays {r : FrameReassembler ω} {frameId : UInt32}
    (h : r.isStale frameId = false) :
    Precedes r.lastEmittedFrameId frameId ↔ ¬ Strays r.lastEmittedFrameId frameId := by
  generalize hlast : r.lastEmittedFrameId = last
  have hfresh : last.toNat < frameId.toNat ∨ 2147483647 ≤ (last - frameId).toNat := by
    unfold FrameReassembler.isStale at h
    rw [hlast] at h
    by_contra hstale
    push Not at hstale
    have hle : frameId ≤ last := UInt32.le_iff_toNat_le.mpr hstale.1
    have hlt : last - frameId < 0x7FFFFFFF := UInt32.lt_iff_toNat_lt.mpr hstale.2
    simp [hle, hlt] at h
  have hfar : last - frameId = 0x7FFFFFFF ↔ (last - frameId).toNat = 2147483647 :=
    UInt32.toNat_inj.symm
  have hhalf : last - frameId = 0x80000000 ↔ (last - frameId).toNat = 2147483648 :=
    UInt32.toNat_inj.symm
  have hover : 0x80000000 ≤ frameId - last ↔ 2147483648 ≤ (frameId - last).toNat :=
    UInt32.le_iff_toNat_le
  have h₁ := last.toNat_lt
  have h₂ := frameId.toNat_lt
  unfold Precedes Strays
  rw [hfar, hhalf, hover, UInt32.lt_iff_toNat_lt]
  rw [UInt32.toNat_sub] at hfresh ⊢
  rw [UInt32.toNat_sub]
  omega

/-- Of the frames, what a packet does: it emits one, which was not stale, or none. -/
theorem FrameReassembler.Settled.emits {r : FrameReassembler ω} (h : r.Settled) (origin : ω)
    (packetData : Bytes) :
    (r.Completes lib origin packetData ∧
      (r.waitingForKeyframe = false →
        r.isStale (PacketHeader.ofBytes packetData).frameId = false) ∧
      ∃ frame, emitted (r.pushPacket lib origin packetData).calls = [frame] ∧
        frame.frameId = (PacketHeader.ofBytes packetData).frameId ∧
        (r.pushPacket lib origin packetData).state.waitingForKeyframe = false ∧
        (r.pushPacket lib origin packetData).state.lastEmittedFrameId = frame.frameId) ∨
    (¬ r.Completes lib origin packetData ∧
      emitted (r.pushPacket lib origin packetData).calls = [] ∧
      (r.pushPacket lib origin packetData).state.waitingForKeyframe = r.waitingForKeyframe ∧
      (r.pushPacket lib origin packetData).state.lastEmittedFrameId = r.lastEmittedFrameId) := by
  by_cases hcomp : r.Completes lib origin packetData
  · obtain ⟨header, payload, ho, -, hw, -, hcalls, hwait, hlast⟩ := hcomp.pushPacket_eq
    rw [← openPacket_header ho, hcalls, hlast]
    refine .inl ⟨hcomp, fun hready => ?_, _, rfl, h.pendingWith_frameId origin header payload,
      hwait, rfl⟩
    simpa [Wants, hready] using hw
  · obtain ⟨hnone, hwait, hlast⟩ := pushPacket_of_not_completes hcomp
    exact .inr ⟨hcomp, emitted_eq_nil hnone, hwait, hlast⟩

namespace Receiver

variable {s : Receiver}

def frameIds (emissions : List Emission) : List UInt32 :=
  (emitted (emissions.map (·.call))).map (·.frameId)

@[simp] theorem frameIds_nil : frameIds [] = [] := rfl

theorem frameIds_append (es es' : List Emission) :
    frameIds (es ++ es') = frameIds es ++ frameIds es' := by
  simp [frameIds]

def lastFrameId (s : Receiver) : Option UInt32 :=
  if s.reassembler.waitingForKeyframe then none else some s.reassembler.lastEmittedFrameId

theorem lastFrameId_of_emitted {frameId : UInt32} (hw : s.reassembler.waitingForKeyframe = false)
    (hl : s.reassembler.lastEmittedFrameId = frameId) : s.lastFrameId = some frameId := by
  rw [lastFrameId, hw, hl]
  rfl

theorem lastFrameId_congr {s' : Receiver}
    (hw : s'.reassembler.waitingForKeyframe = s.reassembler.waitingForKeyframe)
    (hl : s'.reassembler.lastEmittedFrameId = s.reassembler.lastEmittedFrameId) :
    s'.lastFrameId = s.lastFrameId := by
  rw [lastFrameId, lastFrameId, hw, hl]

/-- A packet that completes a frame, other than the first, is not of a stray identifier. -/
def KeepsSerial (lib : Mbedtls) (s : Receiver) : Operation → Prop
  | .pushPacket packetData =>
    s.reassembler.Completes lib ⟨s.epoch, s.reassembler.crypto, packetData⟩ packetData →
      ∀ last ∈ s.lastFrameId, ¬ Strays last (PacketHeader.ofBytes packetData).frameId
  | _ => True

instance (s : Receiver) : DecidablePred (KeepsSerial lib s)
  | .pushPacket packetData =>
    have := Option.decidableForallMem (p := fun last =>
      ¬ Strays last (PacketHeader.ofBytes packetData).frameId) s.lastFrameId
    inferInstanceAs (Decidable (_ → _))
  | .setCrypto _ | .setExpectedSessionId _ | .reset => isTrue trivial

/-- One operation but `Reset`: the frame it emits, if any, becomes the last one, and is ahead of
that before exactly when it is not stray. -/
theorem serial_step (h : s.reassembler.Settled) {op : Operation} (hop : op ≠ .reset) :
    (frameIds (s.operate lib op).2 = [] ∧ (s.operate lib op).1.lastFrameId = s.lastFrameId ∧
      s.KeepsSerial lib op) ∨
    ∃ frameId, frameIds (s.operate lib op).2 = [frameId] ∧
      (s.operate lib op).1.lastFrameId = some frameId ∧
      (s.KeepsSerial lib op ↔ ∀ last ∈ s.lastFrameId, Precedes last frameId) := by
  cases op with
  | reset => exact absurd rfl hop
  | setCrypto | setExpectedSessionId => exact .inl ⟨rfl, rfl, trivial⟩
  | pushPacket packetData =>
    have hids : frameIds (s.operate lib (.pushPacket packetData)).2 =
        (emitted (s.reassembler.pushPacket lib ⟨s.epoch, s.reassembler.crypto, packetData⟩
          packetData).calls).map (·.frameId) := by
      simp only [frameIds, operate, List.map_map, Function.comp_def, List.map_id']
    rw [hids]
    rcases @FrameReassembler.Settled.emits _ lib _ h
        ⟨s.epoch, s.reassembler.crypto, packetData⟩ packetData with
      ⟨hcomp, hfresh, frame, hframe, hid, hwait, hlast⟩ | ⟨hcomp, hnone, hwait, hlast⟩
    · refine .inr ⟨frame.frameId, by rw [hframe]; rfl, lastFrameId_of_emitted hwait hlast, ?_⟩
      refine (imp_iff_right hcomp).trans ?_
      rw [hid]
      refine forall₂_congr fun last hmem => ?_
      unfold lastFrameId at hmem
      split_ifs at hmem with hw
      · cases hmem
      · obtain rfl := Option.some.inj hmem
        exact (precedes_iff_not_strays (hfresh (by simpa using hw))).symm
    · exact .inl ⟨by rw [hnone]; rfl, lastFrameId_congr hwait hlast, fun hc => absurd hc hcomp⟩

theorem isChain_iff_keepsSerial (h : s.reassembler.Settled) {ops : List Operation}
    (hops : .reset ∉ ops) :
    (s.lastFrameId.toList ++ frameIds (Machine.exec (operate lib) s ops).2).IsChain Precedes ↔
      Machine.Guarded (operate lib) (KeepsSerial lib) s ops := by
  induction ops generalizing s with
  | nil => exact iff_of_true (by cases s.lastFrameId <;> simp) trivial
  | cons op ops ih =>
    obtain ⟨hop, hops⟩ := not_or.mp (mt List.mem_cons.mpr hops)
    have ih := ih (@settled_operate lib s h op) hops
    rw [Machine.exec_cons, frameIds_append, Machine.Guarded, ← ih]
    rcases @serial_step lib s h _ (Ne.symm hop) with
      ⟨hnone, hlast, hg⟩ | ⟨frameId, hid, hlast, hg⟩
    · rw [hnone, hlast, List.nil_append, and_iff_right hg]
    · rw [hid, hlast, hg]
      cases s.lastFrameId with
      | none => simp
      | some last => simp

/-- Between two `Reset` calls, each frame is ahead of the one before exactly when no packet with
a stray identifier completes a frame. -/
theorem isChain_frameIds_iff {r : FrameReassembler Arrival} {ops : List Operation}
    (hops : .reset ∉ ops) :
    (frameIds (Machine.exec (operate lib) { reassembler := r.reset } ops).2).IsChain Precedes ↔
      Machine.Guarded (operate lib) (KeepsSerial lib) { reassembler := r.reset } ops :=
  isChain_iff_keepsSerial (s := { reassembler := r.reset })
    (FrameReassembler.settled_of_empty rfl) hops

set_option maxRecDepth 100000 in
theorem isChain_frameIds_iff_sample :
    let ops := [.pushPacket (sampleKeyframe 7 0xFFFFFFFF 0), .pushPacket (sampleKeyframe 7 1 1)]
    (frameIds (Machine.exec (operate .sample) { reassembler := .reset {} } ops).2).IsChain
        Precedes ∧
      (frameIds (Machine.exec (operate .sample) { reassembler := .reset {} } ops).2).length = 2 :=
  ⟨(isChain_frameIds_iff (by simp)).mpr (by decide), by decide⟩

set_option maxRecDepth 100000 in
/-- Two frames before the wrap-around are emitted after the one that follows it. -/
theorem not_isChain_frameIds :
    ¬ (frameIds (Machine.exec (operate .sample) { reassembler := .reset {} }
      [.pushPacket (sampleKeyframe 7 1 0), .pushPacket (sampleKeyframe 7 0xFFFFFFFF 1)]).2).IsChain
        Precedes := by decide

end Receiver

end VeyraCam
