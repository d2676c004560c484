import VeyraCam.Session.Playback

/-! # Backpressure

What a push into a full queue loses. The oldest queued frame goes before the place
of the new one is known, so that it goes in favour of an older frame where that
comes late.
-/

namespace VeyraCam

namespace JitterBuffer

def lost (b : JitterBuffer) (frame : VideoFrame) (now : ℤ) : List BufferedFrame :=
  (⟨frame, now⟩ :: b.queue).diff (b.pushFrame frame now).1.queue

/-- No frame that is lost is newer than one that is kept. -/
def LosesStalest (b : JitterBuffer) (frame : VideoFrame) (now : ℤ) : Prop :=
  ∀ e ∈ b.lost frame now, ∀ e' ∈ (b.pushFrame frame now).1.queue, e.NoLater e'

instance (b : JitterBuffer) (frame : VideoFrame) (now : ℤ) :
    Decidable (b.LosesStalest frame now) :=
  inferInstanceAs (Decidable (∀ e ∈ b.lost frame now, ∀ e' ∈ (b.pushFrame frame now).1.queue,
    e.frame.timestampUs ≤ e'.frame.timestampUs))

variable {b : JitterBuffer} {frame : VideoFrame}

theorem queue_pushFrame (h : b.Accepts frame) (now : ℤ) :
    (b.pushFrame frame now).1.queue = b.queueWith frame now := by
  rw [pushFrame_of_accepts h]

theorem lost_perm (h : b.Accepts frame) (now : ℤ) :
    (b.lost frame now).Perm (b.queue.take (b.queue.length + 1 - b.config.maxQueueFrames)) := by
  have hqueue : (b.queue : Multiset BufferedFrame) =
      ↑(b.queue.take (b.queue.length + 1 - b.config.maxQueueFrames)) + ↑b.kept := by
    rw [Multiset.coe_add, kept, List.take_append_drop]
  have hpush : (b.queueWith frame now : Multiset BufferedFrame) = ⟨frame, now⟩ ::ₘ ↑b.kept := by
    rw [queueWith_eq]
    exact Multiset.coe_eq_coe.mpr (List.perm_orderedInsert _ _ _)
  rw [← Multiset.coe_eq_coe, lost, queue_pushFrame h, ← Multiset.coe_sub, hpush,
    ← Multiset.cons_coe, hqueue, ← Multiset.add_cons, Multiset.add_sub_cancel_right]

theorem Orderly.accepts_of_full (h : b.Orderly) (hfull : b.queue.length = b.config.maxQueueFrames)
    (frame : VideoFrame) : b.Accepts frame := by
  intro hw
  have hpos := b.config.maxQueueFrames_pos
  rw [← hfull, h.empty hw] at hpos
  cases hpos

theorem Orderly.losesStalest_iff (h : b.Orderly)
    (hfull : b.queue.length = b.config.maxQueueFrames) (frame : VideoFrame) (now : ℤ) :
    b.LosesStalest frame now ↔
      ∀ oldest ∈ b.queue.head?, oldest.frame.timestampUs ≤ frame.timestampUs := by
  have ha := h.accepts_of_full hfull frame
  obtain ⟨oldest, queue, hq⟩ : ∃ oldest queue, b.queue = oldest :: queue := by
    apply List.exists_cons_of_length_pos
    rw [hfull]
    exact b.config.maxQueueFrames_pos
  have hroom : b.queue.length + 1 - b.config.maxQueueFrames = 1 := by omega
  have hlost : b.lost frame now = [oldest] := by
    have hperm := lost_perm ha now
    rw [hroom, hq] at hperm
    exact List.perm_singleton.mp hperm
  have hkept : b.kept = queue := by
    rw [kept, hroom, hq]
    rfl
  rw [LosesStalest, hlost, queue_pushFrame ha, hq]
  simp only [List.mem_singleton, forall_eq, mem_queueWith_iff, hkept, List.head?_cons,
    Option.mem_def, Option.some.injEq]
  constructor
  · rintro hall _ rfl
    exact hall _ (.inl rfl)
  · rintro hle e' (rfl | he')
    · exact hle oldest rfl
    · have hsorted := h.sorted
      rw [hq] at hsorted
      exact List.rel_of_pairwise_cons hsorted he'

end JitterBuffer

/-- Where the queue of a buffer is full, after whatever calls with whatever clock readings, the next
push loses no frame that is newer than one it keeps exactly when the frame pushed is not older than
the oldest one queued. -/
theorem backpressure_loses_stalest_iff (config : JitterBufferConfig) (calls : List BufferCall)
    (frame : VideoFrame) (now : ℤ) :
    let b := (Machine.exec Playback.call { buffer := { config } } calls).1.buffer
    b.queue.length = b.config.maxQueueFrames →
      (b.LosesStalest frame now ↔
        ∀ oldest ∈ b.queue.head?, oldest.frame.timestampUs ≤ frame.timestampUs) := by
  intro b hfull
  have horderly : b.Orderly :=
    Machine.invariant (I := fun p : Playback => p.buffer.Orderly)
      (fun p c h => Playback.orderly_call h c) (JitterBuffer.orderly_flush { config }) calls
  exact horderly.losesStalest_iff hfull frame now

theorem backpressure_loses_stalest_sample :
    let calls : List BufferCall := [.pushFrame { timestampUs := 10, isKeyframe := true } 0,
      .pushFrame { timestampUs := 20 } 1]
    (Machine.exec Playback.call { buffer := { config := { maxQueueFrames := 2 } } }
      calls).1.buffer.LosesStalest { timestampUs := 15 } 2 :=
  (backpressure_loses_stalest_iff { maxQueueFrames := 2 } _ { timestampUs := 15 } 2 rfl).mpr
    (by simp; decide)

/-- A full queue loses its oldest frame to a late one that is older still. -/
theorem backpressure_loses_newer :
    let calls : List BufferCall := [.pushFrame { timestampUs := 10, isKeyframe := true } 0,
      .pushFrame { timestampUs := 20 } 1]
    let b := (Machine.exec Playback.call { buffer := { config := { maxQueueFrames := 2 } } }
      calls).1.buffer
    b.queue.length = b.config.maxQueueFrames ∧ (b.pushFrame { timestampUs := 5 } 2).2 = false ∧
      ¬ b.LosesStalest { timestampUs := 5 } 2 := by
  decide

end VeyraCam
