import Mathlib.Algebra.Order.Group.Multiset
import Mathlib.Tactic.Abel
import VeyraCam.Library.Machine
import VeyraCam.Session.JitterBuffer

/-! # The accounts of a jitter buffer

A ledger of what has gone into a jitter buffer and come out of it since it was
last flushed. Whatever the clock reads, every accepted frame has been given out,
dropped or is still queued, and the counter of dropped frames agrees.
-/

namespace VeyraCam

/-- A call on a jitter buffer, with the clock reading it makes. -/
inductive BufferCall where
  | pushFrame (frame : VideoFrame) (now : ℤ)
  | popNextFrame (now : ℤ)
  | updateNetworkStats (target : ℕ)
  | flush

/-- A jitter buffer with the frames accepted, given out and dropped since the last `Flush`, and
what the counter of dropped frames was then. -/
structure BufferLedger where
  buffer : JitterBuffer
  accepted : Multiset VideoFrame := 0
  popped : Multiset VideoFrame := 0
  dropped : Multiset VideoFrame := 0
  droppedBefore : ℕ := buffer.droppedFrames

namespace BufferLedger

def frames (queue : List BufferedFrame) : Multiset VideoFrame := queue.map (·.frame)

/-- Push a frame, and enter it and those dropped for it unless it is refused. -/
def pushFrame (l : BufferLedger) (frame : VideoFrame) (now : ℤ) : BufferLedger :=
  let (buffer, asksForKeyframe) := l.buffer.pushFrame frame now
  if asksForKeyframe then { l with buffer }
  else
    let stale := JitterBuffer.stale l.buffer.config.maxQueueFrames l.buffer.queue
    { l with buffer, accepted := frame ::ₘ l.accepted, dropped := frames stale + l.dropped }

def popNextFrame (l : BufferLedger) (now : ℤ) : BufferLedger × List VideoFrame :=
  let (buffer, frame) := l.buffer.popNextFrame now
  ({ l with buffer, popped := frame.toList + l.popped }, frame.toList)

/-- A call, with the frame it gives out if there is one. -/
def call (l : BufferLedger) : BufferCall → BufferLedger × List VideoFrame
  | .pushFrame frame now => (l.pushFrame frame now, [])
  | .popNextFrame now => l.popNextFrame now
  | .updateNetworkStats target => ({ l with buffer := l.buffer.updateNetworkStats target }, [])
  | .flush => ({ buffer := l.buffer.flush }, [])

structure Balanced (l : BufferLedger) : Prop where
  orderly : l.buffer.Orderly
  accepted : l.accepted = l.popped + frames l.buffer.queue + l.dropped
  droppedFrames : l.buffer.droppedFrames = l.droppedBefore + l.dropped.card

variable {l : BufferLedger}

@[simp] theorem frames_nil : frames [] = 0 := rfl

@[simp] theorem frames_cons (e : BufferedFrame) (queue : List BufferedFrame) :
    frames (e :: queue) = e.frame ::ₘ frames queue := rfl

@[simp] theorem card_frames (queue : List BufferedFrame) :
    (frames queue).card = queue.length := List.length_map ..

theorem frames_append (queue queue' : List BufferedFrame) :
    frames (queue ++ queue') = frames queue + frames queue' := by
  simp [frames]

theorem frames_queueWith (b : JitterBuffer) (frame : VideoFrame) (now : ℤ) :
    frames (b.queueWith frame now) =
      frame ::ₘ frames (JitterBuffer.dropStale b.config.maxQueueFrames b.queue) := by
  have hperm := List.perm_orderedInsert BufferedFrame.NoLater ⟨frame, now⟩
    (JitterBuffer.dropStale b.config.maxQueueFrames b.queue)
  exact Multiset.coe_eq_coe.mpr (hperm.map (·.frame))

theorem balanced_of_empty {b : JitterBuffer} (hb : b.Orderly) (h : b.queue = []) :
    Balanced { buffer := b } :=
  ⟨hb, by simp [h], rfl⟩

/-- The loop splits the queue into the frames it drops and those it keeps. -/
theorem Balanced.pushFrame (h : l.Balanced) (frame : VideoFrame) (now : ℤ) :
    (l.pushFrame frame now).Balanced := by
  have horderly := h.orderly.pushFrame frame now
  have hsplit := JitterBuffer.stale_append_dropStale l.buffer.config.maxQueueFrames l.buffer.queue
  unfold BufferLedger.pushFrame
  rcases l.buffer.pushFrame_cases frame now with hs | hs
  · rw [hs]
    exact h
  rw [hs] at horderly ⊢
  refine ⟨horderly, ?_, ?_⟩
  · have hframes : frames l.buffer.queue =
        frames (JitterBuffer.stale l.buffer.config.maxQueueFrames l.buffer.queue) +
          frames (JitterBuffer.dropStale l.buffer.config.maxQueueFrames l.buffer.queue) := by
      rw [← frames_append, hsplit]
    change frame ::ₘ l.accepted =
      l.popped + frames (l.buffer.queueWith frame now) + (frames _ + l.dropped)
    rw [frames_queueWith, h.accepted, hframes, Multiset.add_cons, Multiset.cons_add]
    refine congrArg (frame ::ₘ ·) ?_
    abel
  · have hlength := congrArg List.length hsplit
    rw [List.length_append] at hlength
    change l.buffer.droppedFrames + _ = l.droppedBefore + (frames _ + l.dropped).card
    rw [Multiset.card_add, card_frames, h.droppedFrames]
    omega

theorem Balanced.popNextFrame (h : l.Balanced) (now : ℤ) :
    (l.popNextFrame now).1.Balanced := by
  have horderly := h.orderly.popNextFrame now
  unfold BufferLedger.popNextFrame
  rcases l.buffer.popNextFrame_cases now with hs | ⟨oldest, queue, hq, hs⟩
  · rw [hs]
    exact ⟨h.orderly, h.accepted.trans (by simp), h.droppedFrames⟩
  · rw [hs] at horderly ⊢
    refine ⟨horderly, ?_, h.droppedFrames⟩
    change l.accepted = {oldest.frame} + l.popped + frames queue + l.dropped
    rw [h.accepted, hq, frames_cons]
    simp

theorem Balanced.call (h : l.Balanced) (c : BufferCall) : (l.call c).1.Balanced := by
  cases c with
  | pushFrame frame now => exact h.pushFrame frame now
  | popNextFrame now => exact h.popNextFrame now
  | updateNetworkStats target =>
    exact ⟨⟨h.orderly.sorted, h.orderly.length_le, h.orderly.empty⟩, h.accepted, h.droppedFrames⟩
  | flush => exact balanced_of_empty (JitterBuffer.orderly_flush _) rfl

theorem config_call (l : BufferLedger) (c : BufferCall) :
    (l.call c).1.buffer.config = l.buffer.config := by
  cases c with
  | pushFrame frame now =>
    change (l.pushFrame frame now).buffer.config = _
    unfold pushFrame
    rcases l.buffer.pushFrame_cases frame now with hs | hs <;> rw [hs] <;> rfl
  | popNextFrame now =>
    change (l.popNextFrame now).1.buffer.config = _
    unfold popNextFrame
    rcases l.buffer.popNextFrame_cases now with hs | ⟨_, _, _, hs⟩ <;> rw [hs]
  | updateNetworkStats | flush => rfl

/-- After every run of calls with whatever clock readings, the queue is sorted and within its
bound, every frame accepted since the last `Flush` has been given out, is queued or was dropped,
and the counter has grown by the number dropped. -/
theorem accounts_after (config : JitterBufferConfig) (calls : List BufferCall) :
    let l := (Machine.exec call { buffer := { config } } calls).1
    l.buffer.queue.Pairwise BufferedFrame.NoLater ∧
      l.buffer.queue.length ≤ config.maxQueueFrames ∧
      l.accepted = l.popped + frames l.buffer.queue + l.dropped ∧
      l.buffer.droppedFrames = l.droppedBefore + l.dropped.card ∧
      l.buffer.getDroppedFrames - .ofNat l.droppedBefore = .ofNat l.dropped.card := by
  have hstep (l : BufferLedger) (c : BufferCall) (h : l.buffer.config = config ∧ l.Balanced) :
      (call l c).1.buffer.config = config ∧ (call l c).1.Balanced :=
    ⟨(config_call l c).trans h.1, h.2.call c⟩
  obtain ⟨hconfig, hbalanced⟩ := Machine.invariant hstep (s := { buffer := { config } })
    ⟨rfl, balanced_of_empty ⟨.nil, Nat.zero_le _, fun _ => rfl⟩ rfl⟩ calls
  have hdropped := hbalanced.droppedFrames
  refine ⟨hbalanced.orderly.sorted, ?_, hbalanced.accepted, hdropped, ?_⟩
  · exact hbalanced.orderly.length_le.trans_eq (congrArg (·.maxQueueFrames) hconfig)
  · rw [JitterBuffer.getDroppedFrames, hdropped, UInt64.ofNat_add, UInt64.add_comm,
      UInt64.add_sub_cancel]

end BufferLedger

end VeyraCam
