import VeyraCam.Session.Playback
import VeyraCam.Session.VeyraSession

/-! # Playout

A session pushes each frame it has assembled and then pops at most one. Frames
assembled in the order of their timestamps are all played in that order: the rule
that pops from a queue that is half full keeps the rule that drops from ever
applying.
-/

namespace VeyraCam

inductive PlayoutEvent where
  /-- A frame is complete, with the clock readings of `PushFrame` and `PopNextFrame`. -/
  | assembledFrame (frame : VideoFrame) (pushedAt poppedAt : ℤ)
  | updateNetworkStats (target : ℕ)

namespace JitterBuffer

variable {b : JitterBuffer} {frame : VideoFrame}

theorem orderedInsert_of_newer {queue : List BufferedFrame} {e : BufferedFrame}
    (h : ∀ x ∈ queue, x.frame.timestampUs < e.frame.timestampUs) :
    queue.orderedInsert BufferedFrame.NoLater e = queue ++ [e] := by
  induction queue with
  | nil => rfl
  | cons x queue ih =>
    obtain ⟨hx, hqueue⟩ := List.forall_mem_cons.mp h
    have hnot : ¬ e.NoLater x := UInt64.not_le.mpr hx
    rw [List.orderedInsert_of_not_le _ _ hnot, ih hqueue, List.cons_append]

theorem popNextFrame_keeps (b : JitterBuffer) (now : ℤ) :
    (b.popNextFrame now).1.config = b.config ∧
      (b.popNextFrame now).1.droppedFrames = b.droppedFrames ∧
      (b.popNextFrame now).1.waitingForInitialKeyframe = b.waitingForInitialKeyframe := by
  rcases b.popNextFrame_cases now with hs | ⟨_, _, _, hs⟩ <;> rw [hs]
  · exact ⟨rfl, rfl, rfl⟩
  · exact ⟨rfl, rfl, rfl⟩

/-- Every frame of the input has been played or is among the `n` at most that are queued, in the
order of the input. -/
structure Lossless (b : JitterBuffer) (n : ℕ) (input played : List VideoFrame) : Prop where
  maxQueueFrames : b.config.maxQueueFrames = 10
  length_le : b.queue.length ≤ n
  droppedFrames : b.droppedFrames = 0
  timeline : played ++ Playback.frames b.queue = input
  opened : b.waitingForInitialKeyframe = true → input = []

variable {input played : List VideoFrame} {n : ℕ}

theorem Lossless.played_prefix (h : b.Lossless n input played) : played <+: input :=
  ⟨_, h.timeline⟩

theorem Lossless.pushFrame (h : b.Lossless n input played) (hn : n < 10)
    (hkey : Playback.StartsAtKeyframe (input ++ [frame]))
    (hnewer : ∀ f ∈ input, f.timestampUs < frame.timestampUs) (now : ℤ) :
    (b.pushFrame frame now).1.Lossless (n + 1) (input ++ [frame]) played := by
  have haccepts : b.Accepts frame := by
    intro hw
    rw [h.opened hw] at hkey
    exact hkey
  have hroom : b.queue.length < b.config.maxQueueFrames := by
    rw [h.maxQueueFrames]
    exact h.length_le.trans_lt hn
  have hqueue : ∀ e ∈ b.queue, e.frame.timestampUs < frame.timestampUs := by
    rintro e he
    apply hnewer
    rw [← h.timeline]
    exact List.mem_append_right _ (List.mem_map_of_mem he)
  rw [pushFrame_of_accepts haccepts, queueWith, dropStale_of_length_lt hroom,
    orderedInsert_of_newer hqueue, Nat.sub_self]
  constructor
  · exact h.maxQueueFrames
  · simpa using h.length_le
  · exact h.droppedFrames
  · rw [← h.timeline, List.append_assoc]
    simp [Playback.frames]
  · intro hw
    cases hw

theorem Lossless.popNextFrame (h : b.Lossless 5 input played) (now : ℤ) :
    (b.popNextFrame now).1.Lossless 4 input (played ++ (b.popNextFrame now).2.toList) := by
  obtain ⟨hconfig, hdropped, hwaiting⟩ := b.popNextFrame_keeps now
  constructor
  · rw [hconfig]
    exact h.maxQueueFrames
  · have hlength := h.length_le
    unfold JitterBuffer.popNextFrame
    split
    · next hq => simp [hq]
    · next oldest queue hq =>
      rw [hq, List.length_cons] at hlength
      split_ifs with hdue
      · exact Nat.le_of_succ_le_succ hlength
      · rw [hq, isDue, h.maxQueueFrames, List.length_cons] at hdue
        simp only [Bool.or_eq_true, decide_eq_true_eq] at hdue
        rw [hq, List.length_cons]
        omega
  · rw [hdropped]
    exact h.droppedFrames
  · rw [List.append_assoc, Playback.toList_append_frames]
    exact h.timeline
  · rw [hwaiting]
    exact h.opened

end JitterBuffer

namespace VeyraSession

/-- What reaches the jitter buffer, with the frames played. -/
def playout (s : VeyraSession) : PlayoutEvent → VeyraSession × List SessionOutput
  | .assembledFrame frame pushedAt poppedAt => s.onAssembledFrameReady frame pushedAt poppedAt
  | .updateNetworkStats target =>
    ({ s with jitterBuffer := s.jitterBuffer.updateNetworkStats target }, [])

def assembled (events : List PlayoutEvent) : List VideoFrame :=
  events.filterMap fun
    | .assembledFrame frame _ _ => some frame
    | .updateNetworkStats _ => none

/-- A run of events loses nothing, and holds at most four frames back. -/
theorem lossless_exec (s : VeyraSession) {events : List PlayoutEvent}
    (hkey : Playback.StartsAtKeyframe (assembled events))
    (hordered : (assembled events).Pairwise fun f f' => f.timestampUs < f'.timestampUs) :
    let result := Machine.exec playout { s with jitterBuffer := {} } events
    result.1.jitterBuffer.Lossless 4 (assembled events) (frames result.2) := by
  refine Machine.history_invariant playout _ events
    (I := fun pre s outputs => s.jitterBuffer.Lossless 4 (assembled pre) (frames outputs)) ?_ ?_
  · exact ⟨rfl, Nat.zero_le _, rfl, rfl, fun _ => rfl⟩
  · rintro pre event post rfl h
    rw [frames_append]
    cases event with
    | assembledFrame frame pushedAt poppedAt =>
      have hsplit : assembled (pre ++ .assembledFrame frame pushedAt poppedAt :: post) =
          assembled pre ++ [frame] ++ assembled post := by
        simp [assembled]
      have hinput : assembled (pre ++ [.assembledFrame frame pushedAt poppedAt]) =
          assembled pre ++ [frame] := by
        simp [assembled]
      rw [hsplit] at hkey hordered
      have hnewer : ∀ f ∈ assembled pre, f.timestampUs < frame.timestampUs := by
        rintro f hf
        have hpast := (List.pairwise_append.mp hordered).1
        exact (List.pairwise_append.mp hpast).2.2 f hf frame (List.mem_singleton_self frame)
      have hkey' := hkey.of_isPrefix (List.prefix_append (assembled pre ++ [frame]) _)
      have hpush := h.pushFrame (by decide) hkey' hnewer pushedAt
      rw [hinput, playout, frames_onAssembledFrameReady]
      exact hpush.popNextFrame poppedAt
    | updateNetworkStats target =>
      have hinput : assembled (pre ++ [.updateNetworkStats target]) = assembled pre := by
        simp [assembled]
      have hplayed (s : VeyraSession) :
          frames (s.playout (.updateNetworkStats target)).2 = [] := rfl
      rw [hinput, hplayed, List.append_nil]
      exact ⟨h.maxQueueFrames, h.length_le, h.droppedFrames, h.timeline, h.opened⟩

/-- Whatever the clock reads and whatever network statistics come in between, a new jitter buffer
that is handed frames with increasing timestamps, a keyframe first, plays them in this order,
never holds back more than four and drops none. -/
theorem playout_loses_nothing (s : VeyraSession) {events : List PlayoutEvent}
    (hkey : Playback.StartsAtKeyframe (assembled events))
    (hordered : (assembled events).Pairwise fun f f' => f.timestampUs < f'.timestampUs)
    {pre : List PlayoutEvent} (hpre : pre <+: events) :
    let result := Machine.exec playout { s with jitterBuffer := {} } pre
    frames result.2 <+: assembled events ∧
      frames result.2 ++ Playback.frames result.1.jitterBuffer.queue = assembled pre ∧
      result.1.jitterBuffer.queue.length ≤ 4 ∧ result.1.jitterBuffer.droppedFrames = 0 := by
  have hinput : assembled pre <+: assembled events := hpre.filterMap _
  have h := lossless_exec s (hkey.of_isPrefix hinput) (hordered.sublist hinput.sublist)
  exact ⟨h.played_prefix.trans hinput, h.timeline, h.length_le, h.droppedFrames⟩

theorem playout_loses_nothing_sample :
    let events : List PlayoutEvent :=
      [.assembledFrame { timestampUs := 10, isKeyframe := true } 0 0, .updateNetworkStats 80,
        .assembledFrame { timestampUs := 20 } 1000000 80000000]
    let result := Machine.exec playout {} events
    (frames result.2).length = 1 ∧ frames result.2 <+: assembled events ∧
      frames result.2 ++ Playback.frames result.1.jitterBuffer.queue = assembled events ∧
      result.1.jitterBuffer.queue.length ≤ 4 ∧ result.1.jitterBuffer.droppedFrames = 0 :=
  ⟨by decide, playout_loses_nothing {} (by decide) (by decide) List.prefix_rfl⟩

end VeyraSession

end VeyraCam
