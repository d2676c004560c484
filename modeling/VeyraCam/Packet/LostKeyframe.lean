import VeyraCam.Packet.Receiver

/-! # Keyframes that are given up

An emission clears away the entries before the frame, and a map that has grown
too large loses its first entry. Neither asks for a new keyframe, also when the
entry that goes is of one.
-/

namespace VeyraCam

variable {ω : Type*} {lib : Mbedtls} {origin : ω} {packetData : Bytes}

namespace FrameReassembler

variable {r : FrameReassembler ω} {header : PacketHeader} {payload : Bytes}

/-- `pendingFrames_` when the packet has been stored, before anything is discarded. -/
def held (lib : Mbedtls) (r : FrameReassembler ω) (origin : ω) (packetData : Bytes) :
    OrderedMap UInt32 (PendingFrame ω) :=
  match openPacket lib r.crypto packetData with
  | none => r.pendingFrames
  | some (header, payload) =>
    if r.Admits header ∧ r.Wants header then
      r.pendingFrames.insert header.frameId (r.pendingWith origin header payload)
    else r.pendingFrames

def LosesKeyframe (lib : Mbedtls) (r : FrameReassembler ω) (origin : ω) (packetData : Bytes) :
    Prop :=
  ∃ k e, (r.held lib origin packetData).find? k = some e ∧
    (r.pushPacket lib origin packetData).state.pendingFrames.find? k = none ∧
      e.isComplete = false ∧ e.isKeyframe = true

/-- A keyframe that is lost is reported. -/
def ReportsLoss (lib : Mbedtls) (r : FrameReassembler ω) (origin : ω) (packetData : Bytes) : Prop :=
  r.LosesKeyframe lib origin packetData →
    ∃ frameId, .missingKeyframe frameId ∈ (r.pushPacket lib origin packetData).calls

/-- A packet that completes a frame finds no keyframe pending before it, and one that finds no
room for a new frame does not make a keyframe go, be it the first one pending or its own. -/
def SparesKeyframes (lib : Mbedtls) (r : FrameReassembler ω) (origin : ω) (packetData : Bytes) :
    Prop :=
  ∀ opened ∈ openPacket lib r.crypto packetData, r.Admits opened.1 → r.Wants opened.1 →
    if (r.pendingWith origin opened.1 opened.2).isComplete then
      ∀ k e, r.pendingFrames.find? k = some e → k < opened.1.frameId → e.isKeyframe = false
    else
      r.pendingFrames.size = 16 → r.pendingFrames.find? opened.1.frameId = none →
        ∀ first ∈ r.pendingFrames.first?,
          (if opened.1.frameId < first.1 then opened.1.isKeyframe else first.2.isKeyframe) = false

theorem held_of_stored (ho : openPacket lib r.crypto packetData = some (header, payload))
    (ha : r.Admits header) (hw : r.Wants header) : r.held lib origin packetData =
      r.pendingFrames.insert header.frameId (r.pendingWith origin header payload) := by
  unfold held
  rw [ho]
  exact if_pos ⟨ha, hw⟩

theorem not_losesKeyframe (h : ∀ opened ∈ openPacket lib r.crypto packetData,
    ¬ (r.Admits opened.1 ∧ r.Wants opened.1)) : ¬ r.LosesKeyframe lib origin packetData := by
  rintro ⟨k, e, hheld, hgone, -⟩
  rw [pushPacket_pendingFrames h] at hgone
  unfold held at hheld
  split at hheld
  · rw [hgone] at hheld
    cases hheld
  · next header payload ho =>
    rw [if_neg (h _ ho), hgone] at hheld
    cases hheld

theorem pendingWith_isKeyframe (hn : r.pendingFrames.find? header.frameId = none) (origin : ω)
    (payload : Bytes) : (r.pendingWith origin header payload).isKeyframe = header.isKeyframe := by
  have hstart : ({} : PendingFrame ω).start header = _ := if_pos rfl
  unfold pendingWith PendingFrame.addFragment
  rw [hn, Option.getD_none]
  dsimp only
  rw [hstart]
  split_ifs <;> rfl

/-- What a packet that is stored does: an emission clears the map up to its frame, and a map
that is too large loses its first entry. -/
theorem Settled.pushPacket_of_stored (h : r.Settled) (origin : ω)
    (ho : openPacket lib r.crypto packetData = some (header, payload)) (ha : r.Admits header)
    (hw : r.Wants header) :
    ((r.pendingWith origin header payload).isComplete = true ∧
      (r.pushPacket lib origin packetData).state.pendingFrames =
        (r.held lib origin packetData).eraseUpTo header.frameId ∧
      ∃ frame origins,
        (r.pushPacket lib origin packetData).calls = [.frameReady frame origins]) ∨
    ((r.pendingWith origin header payload).isComplete = false ∧
      (r.pushPacket lib origin packetData).state.pendingFrames =
        (if 16 < (r.held lib origin packetData).size then
          (r.held lib origin packetData).eraseFirst
        else r.held lib origin packetData) ∧
      (r.pushPacket lib origin packetData).calls = []) := by
  have hname := h.pendingWith_frameId origin header payload
  rw [held_of_stored ho ha hw, pushPacket_of_some ho, acceptPacket_of_admits ha, if_pos hw]
  rcases (r.admitted header).storeFragment_cases origin header payload
    (r.pendingWith_admitted origin header payload) with ⟨hc, hs⟩ | ⟨hc, hs⟩
  · rw [hs, hname, admitted_pendingFrames]
    exact .inl ⟨hc, rfl, _, _, rfl⟩
  · rw [hs, admitted_pendingFrames]
    exact .inr ⟨hc, rfl, rfl⟩

theorem Settled.losesKeyframe_iff_of_complete (h : r.Settled)
    (ho : openPacket lib r.crypto packetData = some (header, payload)) (ha : r.Admits header)
    (hw : r.Wants header) (hc : (r.pendingWith origin header payload).isComplete = true)
    (hs : (r.pushPacket lib origin packetData).state.pendingFrames =
      (r.held lib origin packetData).eraseUpTo header.frameId) :
    r.LosesKeyframe lib origin packetData ↔
      ∃ k e, r.pendingFrames.find? k = some e ∧ k < header.frameId ∧ e.isKeyframe = true := by
  have hheld (k : UInt32) (hk : k ≠ header.frameId) :
      (r.held lib origin packetData).find? k = r.pendingFrames.find? k := by
    rw [held_of_stored ho ha hw, OrderedMap.find?_insert_of_ne _ _ hk]
  constructor
  · rintro ⟨k, e, hfind, hgone, hinc, hkey⟩
    have hle : k ≤ header.frameId := by
      by_contra hlt
      rw [hs, OrderedMap.find?_eraseUpTo, if_neg hlt, hfind] at hgone
      cases hgone
    have hne : k ≠ header.frameId := by
      rintro rfl
      rw [held_of_stored ho ha hw, OrderedMap.find?_insert_self] at hfind
      rw [← Option.some.inj hfind, hc] at hinc
      cases hinc
    exact ⟨k, e, (hheld k hne).symm.trans hfind, UInt32.lt_of_le_of_ne hle hne, hkey⟩
  · rintro ⟨k, e, hfind, hlt, hkey⟩
    refine ⟨k, e, (hheld k (UInt32.ne_of_lt hlt)).trans hfind, ?_, h.incomplete k e hfind, hkey⟩
    rw [hs, OrderedMap.find?_eraseUpTo, if_pos (UInt32.le_of_lt hlt)]

theorem Settled.losesKeyframe_iff_of_trim (h : r.Settled)
    (ho : openPacket lib r.crypto packetData = some (header, payload)) (ha : r.Admits header)
    (hw : r.Wants header) (hc : (r.pendingWith origin header payload).isComplete = false)
    (hs : (r.pushPacket lib origin packetData).state.pendingFrames =
      if 16 < (r.held lib origin packetData).size then (r.held lib origin packetData).eraseFirst
      else r.held lib origin packetData) :
    r.LosesKeyframe lib origin packetData ↔ 16 < (r.held lib origin packetData).size ∧
      ∃ k e, (r.held lib origin packetData).first? = some (k, e) ∧ e.isKeyframe = true := by
  constructor
  · rintro ⟨k, e, hfind, hgone, -, hkey⟩
    rw [hs] at hgone
    split_ifs at hgone with hsize
    · exact ⟨hsize, k, e, OrderedMap.first?_eq_some_iff.mpr ⟨hfind, hgone⟩, hkey⟩
    · rw [hfind] at hgone
      cases hgone
  · rintro ⟨hsize, k, e, hfirst, hkey⟩
    obtain ⟨hfind, hgone⟩ := OrderedMap.first?_eq_some_iff.mp hfirst
    refine ⟨k, e, hfind, by rw [hs, if_pos hsize, hgone], ?_, hkey⟩
    rw [held_of_stored ho ha hw, OrderedMap.find?_insert] at hfind
    split_ifs at hfind
    · exact Option.some.inj hfind ▸ hc
    · exact h.incomplete k e hfind

theorem Settled.losesKeyframe_iff_of_incomplete (h : r.Settled)
    (ho : openPacket lib r.crypto packetData = some (header, payload)) (ha : r.Admits header)
    (hw : r.Wants header) (hc : (r.pendingWith origin header payload).isComplete = false)
    (hs : (r.pushPacket lib origin packetData).state.pendingFrames =
      if 16 < (r.held lib origin packetData).size then (r.held lib origin packetData).eraseFirst
      else r.held lib origin packetData) :
    r.LosesKeyframe lib origin packetData ↔
      r.pendingFrames.size = 16 ∧ r.pendingFrames.find? header.frameId = none ∧
        ∃ first ∈ r.pendingFrames.first?,
          (if header.frameId < first.1 then header.isKeyframe else first.2.isKeyframe) = true := by
  have hle := h.size_le
  rw [h.losesKeyframe_iff_of_trim ho ha hw hc hs, held_of_stored ho ha hw]
  cases hn : r.pendingFrames.find? header.frameId with
  | some e =>
    rw [OrderedMap.size_insert_of_isSome (by rw [hn]; rfl)]
    refine iff_of_false (fun hlt => ?_) fun hnone => ?_
    · exact absurd hlt.1 (by omega)
    · cases hnone.2.1
  | none =>
    rw [OrderedMap.size_insert_of_none hn]
    have hsize : 16 < r.pendingFrames.size + 1 ↔ r.pendingFrames.size = 16 := by omega
    rw [hsize, eq_self_iff_true, true_and]
    refine and_congr_right fun hfull => ?_
    obtain ⟨j, w, hj⟩ := OrderedMap.exists_first?_of_size_pos (by omega : 0 < r.pendingFrames.size)
    rw [OrderedMap.first?_insert_of_none hn hj, hj]
    have hkey := pendingWith_isKeyframe hn origin payload
    by_cases hlt : header.frameId < j
    · simp [hlt, hkey]
    · simp [hlt]

theorem reportsLoss_iff_of_silent (hcalls : ∀ frameId, .missingKeyframe frameId ∉
    (r.pushPacket lib origin packetData).calls) :
    r.ReportsLoss lib origin packetData ↔ ¬ r.LosesKeyframe lib origin packetData :=
  forall_congr' fun _ => iff_false_intro fun ⟨frameId, hmem⟩ => hcalls frameId hmem

theorem sparesKeyframes_iff (ho : openPacket lib r.crypto packetData = some (header, payload))
    (ha : r.Admits header) (hw : r.Wants header) :
    r.SparesKeyframes lib origin packetData ↔
      if (r.pendingWith origin header payload).isComplete then
        ∀ k e, r.pendingFrames.find? k = some e → k < header.frameId → e.isKeyframe = false
      else
        r.pendingFrames.size = 16 → r.pendingFrames.find? header.frameId = none →
          ∀ first ∈ r.pendingFrames.first?,
            (if header.frameId < first.1 then header.isKeyframe else first.2.isKeyframe) =
              false := by
  unfold SparesKeyframes
  rw [ho]
  simp only [Option.mem_def, Option.some.injEq, forall_eq', ha, hw, true_imp_iff]

/-- A packet reports the keyframes it makes the reassembler discard exactly when there are
none. -/
theorem Settled.reportsLoss_iff (h : r.Settled) (origin : ω) (packetData : Bytes) :
    r.ReportsLoss lib origin packetData ↔ r.SparesKeyframes lib origin packetData := by
  rcases stored_or_not lib r packetData with ⟨header, payload, ho, ha, hw⟩ | hnot
  · rw [sparesKeyframes_iff ho ha hw]
    rcases h.pushPacket_of_stored origin ho ha hw with
      ⟨hc, hs, frame, origins, hcalls⟩ | ⟨hc, hs, hcalls⟩
    · have hsilent (i : UInt32) :
          .missingKeyframe i ∉ (r.pushPacket lib origin packetData).calls := by
        rw [hcalls]
        simp
      rw [reportsLoss_iff_of_silent hsilent, if_pos hc,
        h.losesKeyframe_iff_of_complete ho ha hw hc hs]
      push Not
      simp only [ne_eq, Bool.not_eq_true]
    · have hsilent (i : UInt32) :
          .missingKeyframe i ∉ (r.pushPacket lib origin packetData).calls := by
        rw [hcalls]
        exact List.not_mem_nil
      rw [reportsLoss_iff_of_silent hsilent, if_neg (by simp [hc]),
        h.losesKeyframe_iff_of_incomplete ho ha hw hc hs]
      push Not
      simp only [ne_eq, Bool.not_eq_true]
  · refine iff_of_true (fun hloses => ?_) fun opened ho ha hw => ?_
    · exact absurd hloses (not_losesKeyframe hnot)
    · exact absurd ⟨ha, hw⟩ (hnot opened ho)

end FrameReassembler

namespace Receiver

/-- In every run, a packet that makes the reassembler discard an incomplete keyframe reports it
exactly when it discards none. -/
theorem reports_lost_keyframe_iff (lib : Mbedtls) (ops : List Operation) (origin : Arrival)
    (packetData : Bytes) :
    (Machine.exec (operate lib) {} ops).1.reassembler.ReportsLoss lib origin packetData ↔
      (Machine.exec (operate lib) {} ops).1.reassembler.SparesKeyframes lib origin packetData :=
  (settled_after lib ops).reportsLoss_iff origin packetData

set_option maxRecDepth 100000 in
/-- The frame after a keyframe of which one fragment is missing makes it go in silence. -/
theorem not_reports_lost_keyframe :
    ¬ (Machine.exec (operate .sample) {}
      [.pushPacket (sampleFragment none 0)]).1.reassembler.ReportsLoss .sample ⟨0, none, []⟩
        (sampleKeyframe 7 2 1) := by
  intro h
  obtain ⟨frameId, hmem⟩ := h ⟨1, ⟨1, 5, true, 2, 1,
    OrderedMap.insert ∅ 0 ⟨[0], 0, none, sampleFragment none 0⟩⟩, by decide, by decide, rfl, rfl⟩
  have hcalls : ((Machine.exec (operate .sample) {}
      [.pushPacket (sampleFragment none 0)]).1.reassembler.pushPacket .sample ⟨0, none, []⟩
        (sampleKeyframe 7 2 1)).calls = [.frameReady ⟨2, 5, true, [9]⟩ [⟨0, none, []⟩]] := by
    decide
  rw [hcalls] at hmem
  simp at hmem

end Receiver

end VeyraCam
