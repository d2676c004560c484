import VeyraCam.Session.Playback

/-! # Order of arrival

Frames that share a timestamp, as codec configuration and the picture after it do.
A frame is inserted before those of its timestamp that are queued, so that they
come out in the order of arrival only where they cannot be told apart.
-/

namespace VeyraCam

namespace Playback

def ofTimestamp (t : UInt64) (frames : List VideoFrame) : List VideoFrame :=
  frames.filter (·.timestampUs = t)

/-- There is room for the frame, if it is let in. -/
def FindsRoom (p : Playback) : BufferCall → Prop
  | .pushFrame frame _ =>
    p.buffer.Accepts frame → p.buffer.queue.length < p.buffer.config.maxQueueFrames
  | _ => True

/-- No other frame of the same timestamp is queued. -/
def Untied (p : Playback) : BufferCall → Prop
  | .pushFrame frame _ =>
    ∀ e ∈ p.buffer.queue, e.frame.timestampUs = frame.timestampUs → e.frame = frame
  | _ => True

instance (p : Playback) : (c : BufferCall) → Decidable (p.Untied c)
  | .pushFrame frame _ =>
    inferInstanceAs (Decidable (∀ e ∈ p.buffer.queue,
      e.frame.timestampUs = frame.timestampUs → e.frame = frame))
  | .popNextFrame _ | .updateNetworkStats _ | .flush => inferInstanceAs (Decidable True)

variable {p : Playback}

theorem ofTimestamp_append (t : UInt64) (l l' : List VideoFrame) :
    ofTimestamp t (l ++ l') = ofTimestamp t l ++ ofTimestamp t l' := List.filter_append ..

theorem ofTimestamp_cons (t : UInt64) (frame : VideoFrame) (l : List VideoFrame) :
    ofTimestamp t (frame :: l) =
      if frame.timestampUs = t then frame :: ofTimestamp t l else ofTimestamp t l := by
  rw [ofTimestamp, List.filter_cons]
  simp [ofTimestamp]

theorem isPrefix_ofTimestamp {l l' : List VideoFrame} (h : l <+: l') (t : UInt64) :
    ofTimestamp t l <+: ofTimestamp t l' :=
  h.filter _

theorem ofTimestamp_orderedInsert (t : UInt64) (e : BufferedFrame) (queue : List BufferedFrame) :
    ofTimestamp t (frames (queue.orderedInsert BufferedFrame.NoLater e)) =
      ofTimestamp t (e.frame :: frames queue) := by
  induction queue with
  | nil => rfl
  | cons x queue ih =>
    rw [List.orderedInsert]
    split_ifs with hle
    · rfl
    · have hne : x.frame.timestampUs ≠ e.frame.timestampUs := by
        rintro heq
        exact hle (UInt64.le_of_eq heq.symm)
      rw [frames_cons, frames_cons, ofTimestamp_cons, ih, ofTimestamp_cons, ofTimestamp_cons,
        ofTimestamp_cons]
      split_ifs with hx he
      · exact absurd (hx.trans he.symm) hne
      · rfl
      · rfl
      · rfl

theorem ofTimestamp_timeline_pushFrame {frame : VideoFrame} (ha : p.buffer.Accepts frame)
    (hroom : p.buffer.queue.length < p.buffer.config.maxQueueFrames) (t : UInt64) (now : ℤ) :
    ofTimestamp t (p.pushFrame frame now).timeline =
      ofTimestamp t p.popped ++ ofTimestamp t (frame :: frames p.buffer.queue) := by
  rw [timeline_pushFrame ha, ofTimestamp_append, JitterBuffer.queueWith,
    JitterBuffer.dropStale_of_length_lt hroom, ofTimestamp_orderedInsert]

theorem cons_eq_concat_iff {α : Type*} {a : α} {l : List α} :
    a :: l = l ++ [a] ↔ ∀ x ∈ l, x = a := by
  induction l with
  | nil => simp
  | cons x l ih =>
    rw [List.cons_append, List.cons.injEq, List.forall_mem_cons]
    constructor
    · rintro ⟨rfl, h⟩
      exact ⟨rfl, ih.mp h⟩
    · rintro ⟨rfl, h⟩
      exact ⟨rfl, ih.mpr h⟩

theorem untied_pushFrame_iff {frame : VideoFrame} {now : ℤ} :
    p.Untied (.pushFrame frame now) ↔
      ∀ t, ofTimestamp t (frame :: frames p.buffer.queue) =
        ofTimestamp t (frames p.buffer.queue ++ [frame]) := by
  have hmem (t : UInt64) (P : VideoFrame → Prop) :
      (∀ f ∈ ofTimestamp t (frames p.buffer.queue), P f) ↔
        ∀ e ∈ p.buffer.queue, e.frame.timestampUs = t → P e.frame := by
    simp [ofTimestamp, frames]
  simp only [ofTimestamp_append, ofTimestamp_cons]
  constructor
  · intro h t
    split_ifs with ht
    · exact cons_eq_concat_iff.mpr ((hmem t _).mpr (ht ▸ h))
    · exact (List.append_nil _).symm
  · intro h
    have hframe := h frame.timestampUs
    rw [if_pos rfl, if_pos rfl] at hframe
    exact (hmem _ _).mp (cons_eq_concat_iff.mp hframe)

/-- Where there has been room for all frames, those of each timestamp that were accepted are those
of the timeline, in this order. -/
structure KeepsArrival (p : Playback) : Prop where
  orderly : p.buffer.Orderly
  arrival : ∀ t, ofTimestamp t p.timeline = ofTimestamp t p.accepted

theorem KeepsArrival.append (h : p.KeepsArrival) (t : UInt64) (frame : VideoFrame) :
    ofTimestamp t p.popped ++ ofTimestamp t (frames p.buffer.queue ++ [frame]) =
      ofTimestamp t (p.accepted ++ [frame]) := by
  rw [ofTimestamp_append t p.accepted, ← h.arrival, ← ofTimestamp_append, ← ofTimestamp_append,
    timeline, List.append_assoc]

theorem KeepsArrival.call (h : p.KeepsArrival) {c : BufferCall} (hroom : p.FindsRoom c)
    (hc : p.Untied c) : (p.call c).1.KeepsArrival := by
  refine ⟨orderly_call h.orderly c, fun t => ?_⟩
  cases c with
  | pushFrame frame now =>
    change ofTimestamp t (p.pushFrame frame now).timeline =
      ofTimestamp t (p.pushFrame frame now).accepted
    by_cases ha : p.buffer.Accepts frame
    · rw [ofTimestamp_timeline_pushFrame ha (hroom ha), untied_pushFrame_iff.mp hc, h.append,
        pushFrame_of_accepts ha]
    · rw [pushFrame_of_not_accepts ha]
      exact h.arrival t
  | popNextFrame now =>
    change ofTimestamp t (p.popNextFrame now).1.timeline = ofTimestamp t p.accepted
    rw [timeline_popNextFrame]
    exact h.arrival t
  | updateNetworkStats target => exact h.arrival t
  | flush => rfl

theorem KeepsArrival.untied (h : p.KeepsArrival) {c : BufferCall} (hroom : p.FindsRoom c)
    (hc : ∀ t, ofTimestamp t (p.call c).1.timeline <+: ofTimestamp t (p.call c).1.accepted) :
    p.Untied c := by
  cases c with
  | pushFrame frame now =>
    by_cases ha : p.buffer.Accepts frame
    · refine untied_pushFrame_iff.mpr fun t => ?_
      have hpre := hc t
      change ofTimestamp t (p.pushFrame frame now).timeline <+:
        ofTimestamp t (p.pushFrame frame now).accepted at hpre
      rw [ofTimestamp_timeline_pushFrame ha (hroom ha), pushFrame_of_accepts ha, ← h.append,
        List.prefix_append_right_inj] at hpre
      have hperm := (List.perm_append_singleton frame (frames p.buffer.queue)).filter
        (·.timestampUs = t)
      exact hpre.eq_of_length hperm.length_eq.symm
    · -- only an empty queue refuses frames
      have hempty := h.orderly.empty (Classical.not_imp.mp ha).1
      simp [Untied, hempty]
  | popNextFrame | updateNetworkStats | flush => trivial

theorem droppedFrames_le_call (p : Playback) (c : BufferCall) :
    p.buffer.droppedFrames ≤ (p.call c).1.buffer.droppedFrames := by
  cases c with
  | pushFrame frame now =>
    change _ ≤ (p.buffer.pushFrame frame now).1.droppedFrames
    rcases p.buffer.pushFrame_cases frame now with hs | hs <;> rw [hs]
    exact Nat.le_add_right _ _
  | popNextFrame now =>
    change _ ≤ (p.buffer.popNextFrame now).1.droppedFrames
    rcases p.buffer.popNextFrame_cases now with hs | ⟨oldest, queue, -, hs⟩ <;> rw [hs]
  | updateNetworkStats | flush => exact Nat.le_refl _

theorem findsRoom_of_droppedFrames_eq {c : BufferCall}
    (h : (p.call c).1.buffer.droppedFrames = p.buffer.droppedFrames) : p.FindsRoom c := by
  cases c with
  | pushFrame frame now =>
    intro ha
    change (p.buffer.pushFrame frame now).1.droppedFrames = _ at h
    rw [JitterBuffer.pushFrame_of_accepts ha] at h
    have hlength := JitterBuffer.length_dropStale p.buffer.config.maxQueueFrames_pos p.buffer.queue
    dsimp only at h
    omega
  | popNextFrame | updateNetworkStats | flush => trivial

theorem guarded_findsRoom {calls : List BufferCall}
    (h : (Machine.exec call p calls).1.buffer.droppedFrames = p.buffer.droppedFrames) :
    Machine.Guarded call FindsRoom p calls := by
  induction calls generalizing p with
  | nil => trivial
  | cons c calls ih =>
    have hc := p.droppedFrames_le_call c
    have hcalls : (p.call c).1.buffer.droppedFrames ≤
        (Machine.exec call (p.call c).1 calls).1.buffer.droppedFrames :=
      Machine.invariant
        (I := fun q : Playback => (p.call c).1.buffer.droppedFrames ≤ q.buffer.droppedFrames)
        (fun q c hq => hq.trans (q.droppedFrames_le_call c)) le_rfl calls
    change (Machine.exec call (p.call c).1 calls).1.buffer.droppedFrames = _ at h
    exact ⟨findsRoom_of_droppedFrames_eq (by omega), ih (by omega)⟩

/-- From the construction or any `Flush` on, in a run of calls with whatever clock readings in
which no frame is dropped, no frame is pushed while a different one of its timestamp is queued
exactly when, wherever the run is left and the rest popped, the frames of each timestamp given out
since the last `Flush` are the first of those accepted, in the order of arrival. -/
theorem arrival_order_iff (b : JitterBuffer) {calls : List BufferCall}
    (h : (Machine.exec call { buffer := b.flush } calls).1.buffer.droppedFrames =
      b.droppedFrames) :
    Machine.Guarded call Untied { buffer := b.flush } calls ↔
      ∀ pre, pre <+: calls → ∀ nows t,
        ofTimestamp t ((Machine.exec call { buffer := b.flush } pre).1.pops nows).popped <+:
          ofTimestamp t (Machine.exec call { buffer := b.flush } pre).1.accepted := by
  have hpre (accepted l l' : List VideoFrame) (hl : l <+: l')
      (hl' : ∀ t, ofTimestamp t l' <+: ofTimestamp t accepted) (t : UInt64) :
      ofTimestamp t l <+: ofTimestamp t accepted :=
    (isPrefix_ofTimestamp hl t).trans (hl' t)
  simp only [fun p : Playback => p.forall_pops_iff (hpre p.accepted)]
  refine Machine.guarded_iff_forall_reached_of_guarded (I := KeepsArrival)
    (P := fun p => ∀ t, ofTimestamp t p.timeline <+: ofTimestamp t p.accepted)
    ?_ ?_ ?_ ?_ (guarded_findsRoom h)
  · exact fun p c h hroom hc => h.call hroom hc
  · intro p h t
    rw [h.arrival]
  · exact fun p c h hroom hc => h.untied hroom hc
  · exact ⟨JitterBuffer.orderly_flush b, fun _ => rfl⟩

theorem arrival_order_sample :
    let calls : List BufferCall := [.pushFrame { timestampUs := 10, isKeyframe := true } 0,
      .pushFrame { timestampUs := 20 } 1, .popNextFrame 20000000]
    ofTimestamp 20 ((Machine.exec call { buffer := JitterBuffer.flush {} } calls).1.pops
        [20000001]).popped <+:
      ofTimestamp 20 (Machine.exec call { buffer := JitterBuffer.flush {} } calls).1.accepted :=
  (arrival_order_iff {} rfl).mp (by decide) _ List.prefix_rfl [20000001] 20

/-- Codec configuration comes out after the picture that shares its timestamp. -/
theorem arrival_order_swapped :
    let calls : List BufferCall :=
      [.pushFrame { frameId := 1, timestampUs := 10, isKeyframe := true } 0,
        .pushFrame { frameId := 2, timestampUs := 10, isKeyframe := true } 1,
        .popNextFrame 20000001, .popNextFrame 20000001]
    let p := (Machine.exec call { buffer := {} } calls).1
    p.buffer.droppedFrames = 0 ∧ ¬ ofTimestamp 10 p.popped <+: ofTimestamp 10 p.accepted := by
  decide

end Playback

end VeyraCam
