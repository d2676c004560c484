import VeyraCam.Session.BufferLedger

/-! # Playback

What a jitter buffer gives out, in order, since it was last flushed. The frames
given out followed by those queued are its timeline. A pop leaves the timeline as
it is, and pops at late clock readings bring out all of it. Playback goes back in
time only where a frame older than the last one played is pushed, and starts
without a keyframe only where the keyframe is overtaken or dropped.
-/

namespace VeyraCam

namespace JitterBuffer

/-- The frame is let in. -/
def Accepts (b : JitterBuffer) (frame : VideoFrame) : Prop :=
  b.waitingForInitialKeyframe = true → frame.isKeyframe = true

instance (b : JitterBuffer) (frame : VideoFrame) : Decidable (b.Accepts frame) :=
  inferInstanceAs (Decidable (_ → _))

/-- What is queued once there is room for one more frame. -/
def kept (b : JitterBuffer) : List BufferedFrame :=
  b.queue.drop (b.queue.length + 1 - b.config.maxQueueFrames)

/-- The frame that comes first once this one is queued. -/
def firstWith (b : JitterBuffer) (frame : VideoFrame) : VideoFrame :=
  match b.kept.head? with
  | none => frame
  | some oldest => if oldest.frame.timestampUs < frame.timestampUs then oldest.frame else frame

variable {b : JitterBuffer} {frame : VideoFrame}

theorem dropStale_eq_drop (n : ℕ) (queue : List BufferedFrame) :
    dropStale n queue = queue.drop (queue.length + 1 - n) := by
  induction queue with
  | nil => exact List.drop_nil.symm
  | cons oldest queue ih =>
    rw [dropStale, List.length_cons]
    split_ifs with h
    · rw [ih, Nat.sub_add_comm h, List.drop_succ_cons]
    · rw [Nat.sub_eq_zero_of_le (not_le.mp h), List.drop_zero]

theorem dropStale_of_length_lt {n : ℕ} {queue : List BufferedFrame} (h : queue.length < n) :
    dropStale n queue = queue := by
  rw [dropStale_eq_drop, Nat.sub_eq_zero_of_le h, List.drop_zero]

theorem queueWith_eq (b : JitterBuffer) (frame : VideoFrame) (now : ℤ) :
    b.queueWith frame now = b.kept.orderedInsert BufferedFrame.NoLater ⟨frame, now⟩ := by
  rw [queueWith, dropStale_eq_drop, kept]

theorem mem_queueWith_iff {e : BufferedFrame} {now : ℤ} :
    e ∈ b.queueWith frame now ↔ e = ⟨frame, now⟩ ∨ e ∈ b.kept := by
  rw [queueWith_eq, List.mem_orderedInsert]

theorem mem_queue_of_mem_kept {e : BufferedFrame} (h : e ∈ b.kept) : e ∈ b.queue :=
  List.mem_of_mem_drop h

theorem head?_queueWith (b : JitterBuffer) (frame : VideoFrame) (now : ℤ) :
    (b.queueWith frame now).head?.map (·.frame) = some (b.firstWith frame) := by
  rw [queueWith_eq, firstWith]
  cases b.kept with
  | nil => rfl
  | cons oldest queue =>
    rw [List.orderedInsert, List.head?_cons]
    dsimp only
    split_ifs with hle hlt hlt
    · exact absurd hle (UInt64.not_le.mpr hlt)
    · rfl
    · rfl
    · exact absurd (UInt64.not_lt.mp hlt) hle

theorem pushFrame_of_accepts (h : b.Accepts frame) (now : ℤ) :
    b.pushFrame frame now =
      ({ b with
          waitingForInitialKeyframe := false
          queue := b.queueWith frame now
          droppedFrames := b.droppedFrames +
            (b.queue.length - (dropStale b.config.maxQueueFrames b.queue).length) }, false) := by
  have hcond : (b.waitingForInitialKeyframe && !frame.isKeyframe) = false := by
    simpa [Accepts] using h
  rw [pushFrame, hcond, if_neg Bool.false_ne_true]

theorem pushFrame_of_not_accepts (h : ¬ b.Accepts frame) (now : ℤ) :
    b.pushFrame frame now = (b, true) := by
  have hcond : (b.waitingForInitialKeyframe && !frame.isKeyframe) = true := by
    simpa [Accepts] using h
  rw [pushFrame, if_pos hcond]

end JitterBuffer

/-- A jitter buffer with the frames accepted and given out since the last `Flush`, in order. -/
structure Playback where
  buffer : JitterBuffer
  accepted : List VideoFrame := []
  popped : List VideoFrame := []

namespace Playback

def pushFrame (p : Playback) (frame : VideoFrame) (now : ℤ) : Playback :=
  let (buffer, asksForKeyframe) := p.buffer.pushFrame frame now
  { p with buffer, accepted := if asksForKeyframe then p.accepted else p.accepted ++ [frame] }

def popNextFrame (p : Playback) (now : ℤ) : Playback × List VideoFrame :=
  let (buffer, frame) := p.buffer.popNextFrame now
  ({ p with buffer, popped := p.popped ++ frame.toList }, frame.toList)

def call (p : Playback) : BufferCall → Playback × List VideoFrame
  | .pushFrame frame now => (p.pushFrame frame now, [])
  | .popNextFrame now => p.popNextFrame now
  | .updateNetworkStats target => ({ p with buffer := p.buffer.updateNetworkStats target }, [])
  | .flush => ({ buffer := p.buffer.flush }, [])

def pops (p : Playback) (nows : List ℤ) : Playback :=
  (Machine.exec call p (nows.map .popNextFrame)).1

def frames (queue : List BufferedFrame) : List VideoFrame := queue.map (·.frame)

/-- What has been given out, followed by what is queued. -/
def timeline (p : Playback) : List VideoFrame := p.popped ++ frames p.buffer.queue

def InOrder (frames : List VideoFrame) : Prop :=
  frames.Pairwise fun f f' => f.timestampUs ≤ f'.timestampUs

/-- The first frame, if there is one, is a keyframe. -/
def StartsAtKeyframe (frames : List VideoFrame) : Prop := frames.head?.all (·.isKeyframe) = true

instance : DecidablePred InOrder := fun frames =>
  inferInstanceAs (Decidable (frames.Pairwise _))

instance : DecidablePred StartsAtKeyframe := fun _ => inferInstanceAs (Decidable (_ = true))

/-- The frame is not older than the last one given out. -/
def InTime (p : Playback) : BufferCall → Prop
  | .pushFrame frame _ => ∀ last ∈ p.popped.getLast?, last.timestampUs ≤ frame.timestampUs
  | _ => True

/-- As long as nothing has been given out, the frame that then comes first is a keyframe. -/
def OpensAtKeyframe (p : Playback) : BufferCall → Prop
  | .pushFrame frame _ =>
    p.popped = [] → p.buffer.waitingForInitialKeyframe = false →
      (p.buffer.firstWith frame).isKeyframe = true
  | _ => True

variable {p : Playback}

@[simp] theorem frames_nil : frames [] = [] := rfl

@[simp] theorem frames_cons (e : BufferedFrame) (queue : List BufferedFrame) :
    frames (e :: queue) = e.frame :: frames queue := rfl

theorem pushFrame_of_accepts {frame : VideoFrame} (h : p.buffer.Accepts frame) (now : ℤ) :
    p.pushFrame frame now =
      { p with
        buffer := (p.buffer.pushFrame frame now).1
        accepted := p.accepted ++ [frame] } := by
  rw [pushFrame, JitterBuffer.pushFrame_of_accepts h]
  rfl

theorem pushFrame_of_not_accepts {frame : VideoFrame} (h : ¬ p.buffer.Accepts frame) (now : ℤ) :
    p.pushFrame frame now = p := by
  rw [pushFrame, JitterBuffer.pushFrame_of_not_accepts h]
  rfl

theorem orderly_call (h : p.buffer.Orderly) (c : BufferCall) : (p.call c).1.buffer.Orderly := by
  cases c with
  | pushFrame frame now => exact h.pushFrame frame now
  | popNextFrame now => exact h.popNextFrame now
  | updateNetworkStats target => exact ⟨h.sorted, h.length_le, h.empty⟩
  | flush => exact JitterBuffer.orderly_flush _

theorem timeline_pushFrame {frame : VideoFrame} (h : p.buffer.Accepts frame) (now : ℤ) :
    (p.pushFrame frame now).timeline = p.popped ++ frames (p.buffer.queueWith frame now) := by
  rw [pushFrame_of_accepts h, JitterBuffer.pushFrame_of_accepts h]
  rfl

theorem toList_append_frames (b : JitterBuffer) (now : ℤ) :
    (b.popNextFrame now).2.toList ++ frames (b.popNextFrame now).1.queue = frames b.queue := by
  rcases b.popNextFrame_cases now with hs | ⟨oldest, queue, hq, hs⟩
  · rw [hs]
    rfl
  · rw [hs, hq]
    rfl

theorem timeline_popNextFrame (p : Playback) (now : ℤ) :
    (p.popNextFrame now).1.timeline = p.timeline := by
  rw [popNextFrame, timeline, timeline, ← toList_append_frames p.buffer now]
  exact List.append_assoc ..

theorem pops_cons (p : Playback) (now : ℤ) (nows : List ℤ) :
    p.pops (now :: nows) = (p.popNextFrame now).1.pops nows := rfl

theorem timeline_pops (p : Playback) (nows : List ℤ) : (p.pops nows).timeline = p.timeline := by
  induction nows generalizing p with
  | nil => rfl
  | cons now nows ih => rw [pops_cons, ih, timeline_popNextFrame]

theorem popped_prefix_timeline (p : Playback) : p.popped <+: p.timeline := List.prefix_append _ _

end Playback

namespace JitterBuffer

theorem elapsedMs_add_mul (since : ℤ) (n : ℕ) : elapsedMs since (since + n * 1000000) = n := by
  rw [elapsedMs, add_sub_cancel_left, Int.mul_tdiv_cancel _ (by decide)]

theorem exists_popNextFrame {b : JitterBuffer} {oldest : BufferedFrame}
    {queue : List BufferedFrame} (hq : b.queue = oldest :: queue) :
    ∃ now, b.popNextFrame now =
      ({ b with queue, lastEmittedFrameId := oldest.frame.frameId }, some oldest.frame) := by
  refine ⟨oldest.pushedAt + b.currentTargetDelayMs * 1000000, ?_⟩
  have hdue : b.isDue b.queue (oldest.pushedAt + b.currentTargetDelayMs * 1000000) = true := by
    rw [hq]
    simp [isDue, elapsedMs_add_mul]
  unfold popNextFrame
  rw [hdue]
  split
  · next hnil => cases hq.symm.trans hnil
  · next hcons =>
    obtain ⟨rfl, rfl⟩ := List.cons.inj (hq.symm.trans hcons)
    rfl

end JitterBuffer

namespace Playback

variable {p : Playback}

theorem exists_pops_popped_eq_timeline (p : Playback) :
    ∃ nows, (p.pops nows).popped = p.timeline := by
  suffices h : ∀ (n : ℕ) (p : Playback), p.buffer.queue.length = n →
      ∃ nows, (p.pops nows).popped = p.timeline from h _ p rfl
  intro n
  induction n with
  | zero =>
    intro p hn
    refine ⟨[], ?_⟩
    rw [timeline, List.eq_nil_of_length_eq_zero hn]
    exact (List.append_nil _).symm
  | succ n ih =>
    intro p hn
    obtain ⟨oldest, queue, hq⟩ := List.exists_cons_of_length_eq_add_one hn
    obtain ⟨now, hnow⟩ := JitterBuffer.exists_popNextFrame hq
    have hlength : (p.popNextFrame now).1.buffer.queue.length = n := by
      rw [popNextFrame, hnow]
      rw [hq] at hn
      exact Nat.succ.inj hn
    obtain ⟨nows, hnows⟩ := ih _ hlength
    exact ⟨now :: nows, hnows.trans (p.timeline_popNextFrame now)⟩

/-- What holds of all that may still be given out, and of less as well, holds of the timeline. -/
theorem forall_pops_iff {P : List VideoFrame → Prop} (hP : ∀ l l', l <+: l' → P l' → P l) :
    (∀ nows, P (p.pops nows).popped) ↔ P p.timeline := by
  constructor
  · intro h
    obtain ⟨nows, hnows⟩ := p.exists_pops_popped_eq_timeline
    exact hnows ▸ h nows
  · intro h nows
    apply hP _ _ (popped_prefix_timeline _)
    rwa [timeline_pops]

/-- The queue is in order, and nothing is given out before the first keyframe. -/
structure Regular (p : Playback) : Prop where
  orderly : p.buffer.Orderly
  unopened : p.buffer.waitingForInitialKeyframe = true → p.popped = []

theorem regular_flush (b : JitterBuffer) : Regular { buffer := b.flush } :=
  ⟨JitterBuffer.orderly_flush b, fun _ => rfl⟩

theorem Regular.call (h : p.Regular) (c : BufferCall) : (p.call c).1.Regular := by
  refine ⟨orderly_call h.orderly c, fun hw => ?_⟩
  cases c with
  | pushFrame frame now =>
    change (p.pushFrame frame now).popped = []
    change (p.pushFrame frame now).buffer.waitingForInitialKeyframe = true at hw
    by_cases ha : p.buffer.Accepts frame
    · rw [pushFrame_of_accepts ha, JitterBuffer.pushFrame_of_accepts ha] at hw
      cases hw
    · rw [pushFrame_of_not_accepts ha] at hw ⊢
      exact h.unopened hw
  | popNextFrame now =>
    change (p.buffer.popNextFrame now).1.waitingForInitialKeyframe = true at hw
    change p.popped ++ (p.buffer.popNextFrame now).2.toList = []
    rcases p.buffer.popNextFrame_cases now with hs | ⟨oldest, queue, hq, hs⟩ <;> rw [hs] at hw ⊢
    · rw [h.unopened hw]
      rfl
    · cases hq.symm.trans (h.orderly.empty hw)
  | updateNetworkStats target => exact h.unopened hw
  | flush => rfl

theorem Regular.accepts (h : p.Regular) (hp : p.popped ≠ []) (frame : VideoFrame) :
    p.buffer.Accepts frame :=
  fun hw => absurd (h.unopened hw) hp

theorem InOrder.of_isPrefix {l l' : List VideoFrame} (h : l <+: l') (hl : InOrder l') : InOrder l :=
  hl.sublist h.sublist

theorem InOrder.le_of_getLast? {l : List VideoFrame} {t : UInt64} (h : InOrder l)
    (ht : ∀ last ∈ l.getLast?, last.timestampUs ≤ t) : ∀ frame ∈ l, frame.timestampUs ≤ t := by
  rcases List.eq_nil_or_concat l with rfl | ⟨l, last, rfl⟩
  · simp
  · intro frame hframe
    rw [List.concat_eq_append] at h ht hframe
    have hlast : last.timestampUs ≤ t := ht last List.getLast?_concat
    rcases List.mem_append.mp hframe with hmem | hmem
    · have hle := (List.pairwise_append.mp h).2.2 frame hmem last (List.mem_singleton_self last)
      exact UInt64.le_trans hle hlast
    · rwa [List.mem_singleton.mp hmem]

theorem inOrder_frames {queue : List BufferedFrame} (h : queue.Pairwise BufferedFrame.NoLater) :
    InOrder (frames queue) :=
  List.pairwise_map.mpr h

theorem Regular.inOrder_call (h : p.Regular) (hp : InOrder p.timeline) {c : BufferCall}
    (hc : p.InTime c) : InOrder (p.call c).1.timeline := by
  cases c with
  | pushFrame frame now =>
    change InOrder (p.pushFrame frame now).timeline
    by_cases ha : p.buffer.Accepts frame
    · have hsorted := (h.orderly.pushFrame frame now).sorted
      rw [JitterBuffer.pushFrame_of_accepts ha] at hsorted
      rw [timeline_pushFrame ha]
      obtain ⟨hpopped, -, hcross⟩ := List.pairwise_append.mp hp
      refine List.pairwise_append.mpr ⟨hpopped, inOrder_frames hsorted, ?_⟩
      rintro f hf f' hf'
      obtain ⟨e, he, rfl⟩ := List.mem_map.mp hf'
      rcases JitterBuffer.mem_queueWith_iff.mp he with rfl | hkept
      · exact InOrder.le_of_getLast? hpopped hc f hf
      · exact hcross f hf _ (List.mem_map_of_mem (JitterBuffer.mem_queue_of_mem_kept hkept))
    · rwa [pushFrame_of_not_accepts ha]
  | popNextFrame now =>
    change InOrder (p.popNextFrame now).1.timeline
    rwa [timeline_popNextFrame]
  | updateNetworkStats target => exact hp
  | flush => exact List.Pairwise.nil

theorem Regular.inTime_of_inOrder (h : p.Regular) {c : BufferCall}
    (hc : InOrder (p.call c).1.timeline) : p.InTime c := by
  cases c with
  | pushFrame frame now =>
    rintro last hlast
    have hmem : last ∈ p.popped := List.mem_of_getLast? hlast
    have ha := h.accepts (List.ne_nil_of_mem hmem) frame
    change InOrder (p.pushFrame frame now).timeline at hc
    rw [timeline_pushFrame ha] at hc
    apply (List.pairwise_append.mp hc).2.2 last hmem frame
    exact List.mem_map_of_mem (f := (·.frame)) (JitterBuffer.mem_queueWith_iff.mpr (.inl rfl))
  | popNextFrame | updateNetworkStats | flush => trivial

/-- From the construction or any `Flush` on, in a run of calls with whatever clock readings, no
frame is pushed that is older than the last one played exactly when, wherever the run is left and
the rest popped, the frames given out since the last `Flush` are in the order of timestamps. -/
theorem playback_forward_iff (b : JitterBuffer) (calls : List BufferCall) :
    Machine.Guarded call InTime { buffer := b.flush } calls ↔
      ∀ pre, pre <+: calls → ∀ nows,
        InOrder ((Machine.exec call { buffer := b.flush } pre).1.pops nows).popped := by
  simp only [forall_pops_iff fun _ _ => InOrder.of_isPrefix]
  refine Machine.guarded_iff_forall_reached
    (I := fun p : Playback => p.Regular ∧ InOrder p.timeline)
    (P := fun p => InOrder p.timeline) ?_ ?_ ?_ ?_ _
  · rintro p c ⟨h, hp⟩ hc
    exact ⟨h.call c, h.inOrder_call hp hc⟩
  · exact fun p h => h.2
  · exact fun p c h hc => h.1.inTime_of_inOrder hc
  · exact ⟨regular_flush b, List.Pairwise.nil⟩

/-- A late frame is played after a newer one. -/
theorem playback_goes_back :
    let calls : List BufferCall := [.pushFrame { timestampUs := 10, isKeyframe := true } 0,
      .popNextFrame 20000000, .pushFrame { timestampUs := 5 } 20000001, .popNextFrame 40000001]
    ¬ InOrder (Machine.exec call { buffer := {} } calls).1.popped := by
  decide

theorem StartsAtKeyframe.of_isPrefix {l l' : List VideoFrame} (h : l <+: l')
    (hl : StartsAtKeyframe l') : StartsAtKeyframe l := by
  cases l with
  | nil => rfl
  | cons frame l =>
    obtain ⟨l'', rfl⟩ := h
    exact hl

theorem startsAtKeyframe_append_iff {l l' : List VideoFrame} (h : l ≠ []) :
    StartsAtKeyframe (l ++ l') ↔ StartsAtKeyframe l := by
  cases l with
  | nil => exact absurd rfl h
  | cons frame l => exact .rfl

theorem startsAtKeyframe_frames_queueWith_iff {b : JitterBuffer} {frame : VideoFrame} {now : ℤ} :
    StartsAtKeyframe (frames (b.queueWith frame now)) ↔ (b.firstWith frame).isKeyframe = true := by
  rw [StartsAtKeyframe, frames, List.head?_map, JitterBuffer.head?_queueWith]
  rfl

theorem Regular.firstWith_eq (h : p.Regular) (hw : p.buffer.waitingForInitialKeyframe = true)
    (frame : VideoFrame) : p.buffer.firstWith frame = frame := by
  rw [JitterBuffer.firstWith, JitterBuffer.kept, h.orderly.empty hw, List.drop_nil]
  rfl

theorem Regular.startsAtKeyframe_pushFrame_iff (h : p.Regular) (hp : StartsAtKeyframe p.timeline)
    (frame : VideoFrame) (now : ℤ) :
    StartsAtKeyframe (p.pushFrame frame now).timeline ↔
      p.OpensAtKeyframe (.pushFrame frame now) := by
  by_cases ha : p.buffer.Accepts frame
  · rw [timeline_pushFrame ha]
    by_cases hpopped : p.popped = []
    · rw [hpopped, List.nil_append, startsAtKeyframe_frames_queueWith_iff]
      refine ⟨fun hfirst _ _ => hfirst, fun hopens => ?_⟩
      cases hw : p.buffer.waitingForInitialKeyframe with
      | false => exact hopens hpopped hw
      | true =>
        rw [h.firstWith_eq hw]
        exact ha hw
    · have hplayed : StartsAtKeyframe p.popped := hp.of_isPrefix p.popped_prefix_timeline
      rw [startsAtKeyframe_append_iff hpopped]
      exact iff_of_true hplayed fun hnil => absurd hnil hpopped
  · rw [pushFrame_of_not_accepts ha]
    refine iff_of_true hp fun _ hw => ?_
    cases (Classical.not_imp.mp ha).1.symm.trans hw

theorem Regular.startsAtKeyframe_call_iff (h : p.Regular) (hp : StartsAtKeyframe p.timeline)
    (c : BufferCall) : StartsAtKeyframe (p.call c).1.timeline ↔ p.OpensAtKeyframe c := by
  cases c with
  | pushFrame frame now => exact h.startsAtKeyframe_pushFrame_iff hp frame now
  | popNextFrame now =>
    change StartsAtKeyframe (p.popNextFrame now).1.timeline ↔ True
    rw [timeline_popNextFrame]
    exact iff_of_true hp trivial
  | updateNetworkStats target => exact iff_of_true hp trivial
  | flush => exact iff_of_true rfl trivial

/-- From the construction or any `Flush` on, in a run of calls with whatever clock readings, every
push before the first pop leaves a keyframe in front exactly when, wherever the run is left and the
rest popped, the first frame given out since the last `Flush` is a keyframe. -/
theorem playback_opens_at_keyframe_iff (b : JitterBuffer) (calls : List BufferCall) :
    Machine.Guarded call OpensAtKeyframe { buffer := b.flush } calls ↔
      ∀ pre, pre <+: calls → ∀ nows,
        StartsAtKeyframe ((Machine.exec call { buffer := b.flush } pre).1.pops nows).popped := by
  simp only [forall_pops_iff fun _ _ => StartsAtKeyframe.of_isPrefix]
  refine Machine.guarded_iff_forall_reached
    (I := fun p : Playback => p.Regular ∧ StartsAtKeyframe p.timeline)
    (P := fun p => StartsAtKeyframe p.timeline) ?_ ?_ ?_ ?_ _
  · rintro p c ⟨h, hp⟩ hc
    exact ⟨h.call c, (h.startsAtKeyframe_call_iff hp c).mpr hc⟩
  · exact fun p h => h.2
  · exact fun p c h hc => (h.1.startsAtKeyframe_call_iff h.2 c).mp hc
  · exact ⟨regular_flush b, rfl⟩

/-- A late frame overtakes the keyframe that let it in. -/
theorem playback_opens_at_late_frame :
    let calls : List BufferCall := [.pushFrame { timestampUs := 10, isKeyframe := true } 0,
      .pushFrame { timestampUs := 5 } 1, .popNextFrame 20000001]
    ¬ StartsAtKeyframe (Machine.exec call { buffer := {} } calls).1.popped := by
  decide

end Playback

end VeyraCam
