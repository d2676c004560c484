import VeyraCam.Packet.Reassembler

/-! # Where fragments come from

A stored fragment is the payload of a packet that was stored when it arrived,
and a frame is assembled from fragments stored under its identifier. So a
property of fragments that every arriving payload has is one of all stored
fragments, and of the fragments of every emitted frame.
-/

namespace VeyraCam

variable {ω : Type*} {lib : Mbedtls} {origin : ω} {header : PacketHeader} {payload : Bytes}

/-- The frame of a callback is assembled from fragments that all have a property. -/
def Callback.MadeOf (Φ : Fragment ω → Prop) : Callback ω → Prop
  | .frameReady frame origins => ∃ parts : List (Fragment ω), (∀ f ∈ parts, Φ f) ∧
      origins = parts.map (·.origin) ∧ frame.data = parts.flatMap (·.payload)
  | .missingKeyframe _ => True

namespace PendingFrame

theorem find?_addFragment {pending : PendingFrame ω} {index i : UInt16} {f g : Fragment ω}
    (h : (pending.addFragment index f).fragments.find? i = some g) :
    pending.fragments.find? i = some g ∨ i = index ∧ g = f := by
  unfold addFragment at h
  split_ifs at h
  · rw [OrderedMap.find?_insert] at h
    split_ifs at h with hi
    · exact .inr ⟨hi, (Option.some.inj h).symm⟩
    · exact .inl h
  · exact .inl h

@[simp] theorem start_fragments (pending : PendingFrame ω) (header : PacketHeader) :
    (pending.start header).fragments = pending.fragments := by
  unfold start; split_ifs <;> rfl

theorem exists_of_mem_parts {pending : PendingFrame ω} {f : Fragment ω}
    (h : f ∈ pending.parts) : ∃ i, pending.fragments.find? i = some f := by
  obtain ⟨i, -, hi⟩ := List.mem_filterMap.mp h
  exact ⟨_, hi⟩

end PendingFrame

namespace FrameReassembler

variable {r : FrameReassembler ω} {Φ : Fragment ω → Prop}

def AllFragments (Φ : Fragment ω → Prop) (r : FrameReassembler ω) : Prop :=
  ∀ k pending, r.pendingFrames.find? k = some pending →
    ∀ i f, pending.fragments.find? i = some f → Φ f

theorem allFragments_of_empty (h : r.pendingFrames = ∅) : r.AllFragments Φ := by
  intro k pending hk
  rw [h] at hk
  cases hk

theorem AllFragments.mono {Ψ : Fragment ω → Prop} (h : r.AllFragments Φ) (hΨ : ∀ f, Φ f → Ψ f) :
    r.AllFragments Ψ := fun k pending hk i f hf => hΨ f (h k pending hk i f hf)

theorem AllFragments.of_pendingFrames {r' : FrameReassembler ω} (h : r.AllFragments Φ)
    (he : r'.pendingFrames = r.pendingFrames) : r'.AllFragments Φ := by
  unfold AllFragments; rw [he]; exact h

theorem AllFragments.pendingWith (h : r.AllFragments Φ) (hnew : Φ ⟨payload, origin⟩) {i : UInt16}
    {f : Fragment ω} (hf : (r.pendingWith origin header payload).fragments.find? i = some f) :
    Φ f := by
  rcases PendingFrame.find?_addFragment hf with hf | ⟨-, rfl⟩
  · rw [PendingFrame.start_fragments] at hf
    cases he : r.pendingFrames.find? header.frameId with
    | none => rw [he] at hf; cases hf
    | some entry => rw [he] at hf; exact h _ entry he i f hf
  · exact hnew

theorem AllFragments.storeFragment (h : r.AllFragments Φ) (hnew : Φ ⟨payload, origin⟩) :
    (r.storeFragment origin header payload).state.AllFragments Φ ∧
      ∀ c ∈ (r.storeFragment origin header payload).calls, c.MadeOf Φ := by
  constructor
  · intro k pending hk i f hf
    rcases find?_storeFragment hk with ⟨-, rfl⟩ | hk
    · exact h.pendingWith hnew hf
    · exact h k pending hk i f hf
  · rcases r.storeFragment_cases origin header payload rfl with ⟨-, hs⟩ | ⟨-, hs⟩ <;> rw [hs]
    · refine List.forall_mem_singleton.mpr ⟨_, fun f hf => ?_, rfl, rfl⟩
      obtain ⟨i, hi⟩ := PendingFrame.exists_of_mem_parts hf
      exact h.pendingWith hnew hi
    · simp

/-- The packet brings the last fragment of a pending frame, or of a new one. -/
def Completes (lib : Mbedtls) (r : FrameReassembler ω) (origin : ω) (packetData : Bytes) : Prop :=
  ∃ opened ∈ openPacket lib r.crypto packetData, r.Admits opened.1 ∧ r.Wants opened.1 ∧
    (r.pendingWith origin opened.1 opened.2).isComplete = true

instance (r : FrameReassembler ω) (origin : ω) (packetData : Bytes) :
    Decidable (r.Completes lib origin packetData) :=
  inferInstanceAs (Decidable (∃ opened ∈ openPacket lib r.crypto packetData, _))

/-- What `PushPacket` does with a packet that completes a frame. -/
theorem Completes.pushPacket_eq {packetData : Bytes} (h : r.Completes lib origin packetData) :
    ∃ header payload, openPacket lib r.crypto packetData = some (header, payload) ∧
      r.Admits header ∧ r.Wants header ∧ (r.pendingWith origin header payload).isComplete = true ∧
      (r.pushPacket lib origin packetData).calls =
        [.frameReady (r.pendingWith origin header payload).assemble
          ((r.pendingWith origin header payload).parts.map (·.origin))] ∧
      (r.pushPacket lib origin packetData).state.waitingForKeyframe = false ∧
      (r.pushPacket lib origin packetData).state.lastEmittedFrameId =
        (r.pendingWith origin header payload).frameId := by
  obtain ⟨⟨header, payload⟩, ho, ha, hw, hc⟩ := h
  refine ⟨header, payload, ho, ha, hw, hc, ?_⟩
  rw [pushPacket_of_some ho, acceptPacket_of_admits ha, if_pos hw]
  rcases (r.admitted header).storeFragment_cases origin header payload
    (r.pendingWith_admitted origin header payload) with ⟨-, hs⟩ | ⟨hc', -⟩
  · rw [hs]
    exact ⟨rfl, rfl, rfl⟩
  · rw [hc] at hc'
    cases hc'

theorem pushPacket_of_not_completes {packetData : Bytes}
    (h : ¬ r.Completes lib origin packetData) :
    (∀ frame origins, .frameReady frame origins ∉ (r.pushPacket lib origin packetData).calls) ∧
      (r.pushPacket lib origin packetData).state.waitingForKeyframe = r.waitingForKeyframe ∧
      (r.pushPacket lib origin packetData).state.lastEmittedFrameId = r.lastEmittedFrameId := by
  unfold FrameReassembler.pushPacket
  split
  · exact ⟨by simp, rfl, rfl⟩
  · next header payload ho =>
    rcases r.acceptPacket_cases origin header payload with
      ⟨-, hs⟩ | ⟨-, -, -, hs⟩ | ⟨-, -, hs⟩ | ⟨ha, hw, hs⟩ <;> rw [hs]
    · exact ⟨by simp, rfl, rfl⟩
    · exact ⟨by simp, rfl, rfl⟩
    · refine ⟨fun frame origins hmem => ?_, by simp, by simp⟩
      dsimp only at hmem
      split_ifs at hmem
      · cases List.mem_singleton.mp hmem
      · cases hmem
    · rcases (r.admitted header).storeFragment_cases origin header payload
        (r.pendingWith_admitted origin header payload) with ⟨hc, -⟩ | ⟨-, hres⟩
      · exact absurd ⟨(header, payload), ho, ha, hw, hc⟩ h
      · rw [hres]
        exact ⟨by simp, by simp, by simp⟩

/-- A packet comes to be stored, or does not. -/
theorem stored_or_not (lib : Mbedtls) (r : FrameReassembler ω) (packetData : Bytes) :
    (∃ header payload, openPacket lib r.crypto packetData = some (header, payload) ∧
      r.Admits header ∧ r.Wants header) ∨
    ∀ opened ∈ openPacket lib r.crypto packetData, ¬ (r.Admits opened.1 ∧ r.Wants opened.1) := by
  by_cases hstored : ∃ opened ∈ openPacket lib r.crypto packetData,
      r.Admits opened.1 ∧ r.Wants opened.1
  · obtain ⟨⟨header, payload⟩, ho, hboth⟩ := hstored
    exact .inl ⟨header, payload, ho, hboth⟩
  · exact .inr fun opened ho hboth => hstored ⟨opened, ho, hboth⟩

theorem pushPacket_pendingFrames {packetData : Bytes}
    (h : ∀ opened ∈ openPacket lib r.crypto packetData, ¬ (r.Admits opened.1 ∧ r.Wants opened.1)) :
    (r.pushPacket lib origin packetData).state.pendingFrames = r.pendingFrames := by
  unfold FrameReassembler.pushPacket
  split
  · rfl
  · next header payload ho =>
    rcases r.acceptPacket_cases origin header payload with
      ⟨-, hs⟩ | ⟨-, -, -, hs⟩ | ⟨-, -, hs⟩ | ⟨ha, hw, -⟩
    · rw [hs]
    · rw [hs]
    · rw [hs, admitted_pendingFrames]
    · exact absurd ⟨ha, hw⟩ (h _ ho)

theorem completes_of_frameReady {packetData : Bytes} {frame : VideoFrame} {origins : List ω}
    (h : .frameReady frame origins ∈ (r.pushPacket lib origin packetData).calls) :
    r.Completes lib origin packetData :=
  by_contra fun hn => (pushPacket_of_not_completes hn).1 frame origins h

theorem AllFragments.pushPacket {packetData : Bytes} (h : r.AllFragments Φ)
    (hnew : ∀ header payload, openPacket lib r.crypto packetData = some (header, payload) →
      r.Admits header → r.Wants header → Φ ⟨payload, origin⟩) :
    (r.pushPacket lib origin packetData).state.AllFragments Φ ∧
      ∀ c ∈ (r.pushPacket lib origin packetData).calls, c.MadeOf Φ := by
  unfold FrameReassembler.pushPacket
  split
  · exact ⟨h, by simp⟩
  · next header payload ho =>
    rcases r.acceptPacket_cases origin header payload with
      ⟨-, hs⟩ | ⟨-, -, -, hs⟩ | ⟨-, -, hs⟩ | ⟨ha, hw, hs⟩ <;> rw [hs]
    · exact ⟨h, by simp⟩
    · exact ⟨h.of_pendingFrames rfl, by simp⟩
    · refine ⟨h.of_pendingFrames (by simp), fun c hc => ?_⟩
      dsimp only at hc
      split_ifs at hc
      · obtain rfl := List.mem_singleton.mp hc
        trivial
      · cases hc
    · exact (h.of_pendingFrames (by simp)).storeFragment (hnew header payload ho ha hw)

end FrameReassembler

end VeyraCam
