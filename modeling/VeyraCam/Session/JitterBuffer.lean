import VeyraCam.Packet.Reassembler

/-! # The jitter buffer

`AdaptiveJitterBuffer` holds complete frames in the order of their timestamps
and gives out the oldest when it has waited long enough or half the places are
taken. Clock readings are nanoseconds of `steady_clock`.
-/

namespace VeyraCam

/-- `JitterBufferConfig`, with room for one frame at least. -/
structure JitterBufferConfig where
  minDelayMs : ℕ := 20
  maxQueueFrames : ℕ := 10
  maxQueueFrames_pos : 0 < maxQueueFrames := by decide
  deriving DecidableEq

/-- A frame in the queue, with the time at which it was pushed. -/
structure BufferedFrame where
  frame : VideoFrame
  pushedAt : ℤ
  deriving DecidableEq

structure JitterBuffer where
  config : JitterBufferConfig := {}
  queue : List BufferedFrame := []
  currentTargetDelayMs : ℕ := config.minDelayMs
  lastEmittedFrameId : UInt32 := 0
  droppedFrames : ℕ := 0
  waitingForInitialKeyframe : Bool := true
  deriving DecidableEq

namespace BufferedFrame

def NoLater (e e' : BufferedFrame) : Prop := e.frame.timestampUs ≤ e'.frame.timestampUs

instance : DecidableRel NoLater := fun e e' =>
  inferInstanceAs (Decidable (e.frame.timestampUs ≤ e'.frame.timestampUs))

instance : IsTrans BufferedFrame NoLater := ⟨fun _ _ _ => UInt64.le_trans⟩

instance : Std.Total NoLater := ⟨fun _ _ => UInt64.le_total _ _⟩

end BufferedFrame

namespace JitterBuffer

/-- The loop that drops the oldest frames until there is room for one more. -/
def dropStale (maxQueueFrames : ℕ) : List BufferedFrame → List BufferedFrame
  | [] => []
  | oldest :: queue =>
    if maxQueueFrames ≤ queue.length + 1 then dropStale maxQueueFrames queue else oldest :: queue

/-- The queue once a frame has been inserted before the first that is not older. -/
def queueWith (b : JitterBuffer) (frame : VideoFrame) (now : ℤ) : List BufferedFrame :=
  (dropStale b.config.maxQueueFrames b.queue).orderedInsert BufferedFrame.NoLater ⟨frame, now⟩

/-- `AdaptiveJitterBuffer::PushFrame`; true when it asks for a keyframe. -/
def pushFrame (b : JitterBuffer) (frame : VideoFrame) (now : ℤ) : JitterBuffer × Bool :=
  if b.waitingForInitialKeyframe && !frame.isKeyframe then (b, true)
  else
    ({ b with
        waitingForInitialKeyframe := false
        queue := b.queueWith frame now
        droppedFrames := b.droppedFrames +
          (b.queue.length - (dropStale b.config.maxQueueFrames b.queue).length) }, false)

def elapsedMs (since now : ℤ) : ℤ := (now - since).tdiv 1000000

/-- The oldest frame has waited long enough, or the queue is filling up. -/
def isDue (b : JitterBuffer) (queue : List BufferedFrame) (now : ℤ) : Bool :=
  match queue with
  | [] => false
  | oldest :: _ =>
    b.currentTargetDelayMs ≤ elapsedMs oldest.pushedAt now ||
      b.config.maxQueueFrames / 2 ≤ queue.length

def popNextFrame (b : JitterBuffer) (now : ℤ) : JitterBuffer × Option VideoFrame :=
  match b.queue with
  | [] => (b, none)
  | oldest :: queue =>
    if b.isDue b.queue now then
      ({ b with queue, lastEmittedFrameId := oldest.frame.frameId }, some oldest.frame)
    else (b, none)

def flush (b : JitterBuffer) : JitterBuffer :=
  { b with queue := [], lastEmittedFrameId := 0, waitingForInitialKeyframe := true }

/-- `AdaptiveJitterBuffer::UpdateNetworkStats`, given the target that it computes, clamps and
truncates. -/
def updateNetworkStats (b : JitterBuffer) (target : ℕ) : JitterBuffer :=
  { b with currentTargetDelayMs := target }

/-- `AdaptiveJitterBuffer::GetDroppedFrames`, a 64-bit counter. -/
def getDroppedFrames (b : JitterBuffer) : UInt64 := .ofNat b.droppedFrames

def stale (maxQueueFrames : ℕ) : List BufferedFrame → List BufferedFrame
  | [] => []
  | oldest :: queue =>
    if maxQueueFrames ≤ queue.length + 1 then oldest :: stale maxQueueFrames queue else []

variable {b b' : JitterBuffer}

theorem pushFrame_cases (b : JitterBuffer) (frame : VideoFrame) (now : ℤ) :
    b.pushFrame frame now = (b, true) ∨ b.pushFrame frame now =
      ({ b with
          waitingForInitialKeyframe := false
          queue := b.queueWith frame now
          droppedFrames := b.droppedFrames +
            (b.queue.length - (dropStale b.config.maxQueueFrames b.queue).length) }, false) := by
  unfold pushFrame
  split_ifs
  · exact .inl rfl
  · exact .inr rfl

theorem popNextFrame_cases (b : JitterBuffer) (now : ℤ) :
    b.popNextFrame now = (b, none) ∨ ∃ oldest queue, b.queue = oldest :: queue ∧
      b.popNextFrame now =
        ({ b with queue, lastEmittedFrameId := oldest.frame.frameId }, some oldest.frame) := by
  unfold popNextFrame
  split
  · exact .inl rfl
  · next oldest queue hq =>
    split_ifs
    · exact .inr ⟨oldest, queue, hq, rfl⟩
    · exact .inl rfl

theorem stale_append_dropStale (n : ℕ) (queue : List BufferedFrame) :
    stale n queue ++ dropStale n queue = queue := by
  induction queue with
  | nil => rfl
  | cons oldest queue ih =>
    unfold stale dropStale
    split_ifs
    · rw [List.cons_append, ih]
    · rfl

theorem length_dropStale {n : ℕ} (hn : 0 < n) (queue : List BufferedFrame) :
    (dropStale n queue).length < n := by
  induction queue with
  | nil => exact hn
  | cons oldest queue ih =>
    unfold dropStale
    split_ifs with h
    · exact ih
    · exact not_le.mp h

theorem dropStale_suffix (n : ℕ) (queue : List BufferedFrame) : dropStale n queue <:+ queue := by
  induction queue with
  | nil => exact List.suffix_rfl
  | cons oldest queue ih =>
    unfold dropStale
    split_ifs
    · exact ih.trans (List.suffix_cons _ _)
    · exact List.suffix_rfl

theorem queueWith_ne_nil (b : JitterBuffer) (frame : VideoFrame) (now : ℤ) :
    b.queueWith frame now ≠ [] := by
  intro h
  have hlength := congrArg List.length h
  rw [queueWith, List.orderedInsert_length] at hlength
  cases hlength

/-- The queue is in the order of timestamps, as the binary search for a place in it needs, and
there are no more frames than allowed; a buffer that waits for a keyframe is empty. -/
structure Orderly (b : JitterBuffer) : Prop where
  sorted : b.queue.Pairwise BufferedFrame.NoLater
  length_le : b.queue.length ≤ b.config.maxQueueFrames
  empty : b.waitingForInitialKeyframe = true → b.queue = []

theorem orderly_flush (b : JitterBuffer) : b.flush.Orderly :=
  ⟨List.Pairwise.nil, Nat.zero_le _, fun _ => rfl⟩

theorem Orderly.pushFrame (h : b.Orderly) (frame : VideoFrame) (now : ℤ) :
    (b.pushFrame frame now).1.Orderly := by
  rcases b.pushFrame_cases frame now with hs | hs <;> rw [hs]
  · exact h
  · constructor
    · have hsorted := h.sorted.sublist (dropStale_suffix b.config.maxQueueFrames b.queue).sublist
      exact hsorted.orderedInsert _ _
    · have hlength := length_dropStale b.config.maxQueueFrames_pos b.queue
      dsimp only [queueWith]
      rw [List.orderedInsert_length]
      exact hlength
    · intro hw
      cases hw

theorem Orderly.popNextFrame (h : b.Orderly) (now : ℤ) : (b.popNextFrame now).1.Orderly := by
  rcases b.popNextFrame_cases now with hs | ⟨oldest, queue, hq, hs⟩ <;> rw [hs]
  · exact h
  · obtain ⟨hsorted, hlength, hempty⟩ := h
    rw [hq] at hsorted hlength hempty
    refine ⟨hsorted.of_cons, (Nat.le_succ _).trans hlength, fun hw => ?_⟩
    cases hempty hw

/-- A frame is given out once this one has been pushed. -/
def Releases (b : JitterBuffer) (frame : VideoFrame) (pushedAt poppedAt : ℤ) : Prop :=
  (b.waitingForInitialKeyframe = true → frame.isKeyframe = true) ∧
    b.isDue (b.queueWith frame pushedAt) poppedAt = true

instance (b : JitterBuffer) (frame : VideoFrame) (pushedAt poppedAt : ℤ) :
    Decidable (b.Releases frame pushedAt poppedAt) := inferInstanceAs (Decidable (_ ∧ _))

theorem Orderly.isSome_popNextFrame_iff (h : b.Orderly) (frame : VideoFrame)
    (pushedAt poppedAt : ℤ) :
    ((b.pushFrame frame pushedAt).1.popNextFrame poppedAt).2.isSome = true ↔
      b.Releases frame pushedAt poppedAt := by
  unfold Releases JitterBuffer.pushFrame
  by_cases hw : b.waitingForInitialKeyframe = true ∧ frame.isKeyframe = false
  · simp [hw, JitterBuffer.popNextFrame, h.empty hw.1]
  · have hcond : (b.waitingForInitialKeyframe && !frame.isKeyframe) = false := by
      simpa using hw
    have hwants : b.waitingForInitialKeyframe = true → frame.isKeyframe = true := by
      simpa using hcond
    rw [hcond, and_iff_right hwants]
    obtain ⟨oldest, queue, hq⟩ := List.exists_cons_of_ne_nil (b.queueWith_ne_nil frame pushedAt)
    simp only [Bool.false_eq_true, if_false, JitterBuffer.popNextFrame, isDue, hq]
    split_ifs with hdue
    · exact iff_of_true rfl hdue
    · exact iff_of_false (by simp) hdue

end JitterBuffer

end VeyraCam
