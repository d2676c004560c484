import Mathlib.Algebra.Ring.Nat
import VeyraCam.Phone.AppAtRest

/-! # The app comes to rest

Everything that is under way in the app, in whatever way it goes on, leaves less
to do, and something goes on until no call and no reply is under way.
-/

namespace VeyraCam

namespace CameraApp

variable {s : CameraApp} {c : StartCall}

theorem resultReplied_answer (c : StartCall) (reply : ChannelReply) :
    (c.answer reply).1.resultReplied = true := by
  unfold StartCall.answer
  split_ifs with h
  · exact h
  · rfl

/-- A call ends when it has been answered, and is answered with a reply. -/
structure Answers (c c' : StartCall) (replies : List ChannelReply) : Prop where
  ended : c'.stage = .ended → c'.resultReplied = true
  replied : c.resultReplied = false →
    .start ∈ replies.filterMap replyOperation ∨ c'.resultReplied = false

/-- A call that has ended has been answered, and a controller that is connecting waits for a start
under way. -/
structure Awaited (s : CameraApp) : Prop where
  ended : ∀ c ∈ s.starts, c.stage = .ended → c.resultReplied = true
  connecting : s.controller.isConnecting = true → .start ∈ s.timeline

theorem replied_answer (c : StartCall) (reply : ChannelReply)
    (hreply : replyOperation reply = some .start) (hc : c.resultReplied = false) :
    .start ∈ (c.answer reply).2.filterMap replyOperation := by
  simp [StartCall.answer, hc, hreply]

theorem replyOperation_errorOf (run : StartRun) :
    replyOperation (StartCall.errorOf run) = some .start := by
  obtain ⟨code, message, herror⟩ := exists_errorOf run
  rw [herror]
  rfl

theorem startService_answers (c : StartCall) (service : StreamingService) (run : StartRun) :
    Answers c (c.startService service run).1 (c.startService service run).2.2 := by
  have hearly (hc : c.resultReplied = false) := replied_answer c (.started c.entry) rfl hc
  have hlate (hc : c.resultReplied = false) := replied_answer c _ (replyOperation_errorOf run) hc
  unfold StartCall.startService
  by_cases hready : run.cameraReady && !service.isStreaming
  · rw [if_pos hready]
    dsimp only
    split_ifs
    · exact ⟨fun hended => (by cases hended), fun hc => .inl (hearly hc)⟩
    · refine ⟨fun _ => resultReplied_answer _ _, fun hc => .inl ?_⟩
      rw [List.filterMap_append, List.mem_append]
      exact .inl (hearly hc)
  · rw [if_neg hready]
    dsimp only
    split_ifs
    · exact ⟨fun hended => (by cases hended), fun hc => .inr hc⟩
    · exact ⟨fun _ => resultReplied_answer _ _, fun hc => .inl (hlate hc)⟩

theorem tryStart_answers (c : StartCall) (service : Option StreamingService) (run : StartRun) :
    Answers c (c.tryStart service run).1 (c.tryStart service run).2.2 := by
  cases service with
  | some service => exact startService_answers c service run
  | none =>
    unfold StartCall.tryStart
    dsimp only
    split_ifs
    · exact ⟨fun hended => (by cases hended), fun hc => .inr hc⟩
    · exact ⟨fun _ => resultReplied_answer c _, fun hc => .inl (replied_answer c _ rfl hc)⟩

theorem Answers.startOperation_mem {replies : List ChannelReply} {c' : StartCall}
    (h : Answers c c' replies) (hc : Operation.start ∈ startOperation c) :
    .start ∈ replies.filterMap replyOperation ∨ .start ∈ startOperation c' := by
  unfold startOperation at hc ⊢
  split_ifs at hc with hopen
  · cases hc
  · rw [Bool.not_eq_true] at hopen
    refine (h.replied hopen).imp id fun hreplied => ?_
    simp [hreplied]

theorem start_mem_timeline : .start ∈ s.timeline ↔
    .start ∈ s.replies.filterMap replyOperation ∨ (∃ c ∈ s.starts, .start ∈ startOperation c) ∨
      .start ∈ s.calls.filterMap callOperation ∨ s.controller.requesting = true := by
  unfold timeline
  simp only [List.mem_append, or_assoc, List.mem_filterMap (f := startOperation), Option.mem_def]
  cases s.controller.requesting <;> simp

namespace Awaited

variable {replies : List ChannelReply} {c' : StartCall}

theorem update (h : Awaited s) {i : ℕ} (hs : s.starts[i]? = some c) (hadv : Answers c c' replies)
    (service : Option StreamingService) :
    Awaited { s.update i c' replies with service := service } := by
  obtain ⟨l₁, l₂, hsplit, hset⟩ := exists_split hs
  have hstarts : (s.update i c' replies).starts = l₁ ++ c' :: l₂ := hset c'
  constructor
  · intro d hd
    have hmem : d ∈ l₁ ++ c' :: l₂ := hstarts ▸ hd
    rcases List.mem_append.mp hmem with hd | hd
    · exact h.ended d (by simp [hsplit, hd])
    · rcases List.mem_cons.mp hd with rfl | hd
      · exact hadv.ended
      · exact h.ended d (by simp [hsplit, hd])
  · intro hconnecting
    have hbefore := start_mem_timeline.mp (h.connecting hconnecting)
    rw [start_mem_timeline]
    change .start ∈ (s.replies ++ replies).filterMap replyOperation ∨
      (∃ c ∈ s.starts.set i c', .start ∈ startOperation c) ∨ _
    rw [hset, List.filterMap_append, List.mem_append]
    rcases hbefore with hreplies | ⟨d, hd, hstart⟩ | hrest
    · exact .inl (.inl hreplies)
    · rw [hsplit, List.mem_append, List.mem_cons] at hd
      rcases hd with hd | rfl | hd
      · exact .inr (.inl ⟨d, by simp [hd], hstart⟩)
      · rcases hadv.startOperation_mem hstart with hreply | hopen
        · exact .inl (.inr hreply)
        · exact .inr (.inl ⟨c', by simp, hopen⟩)
      · exact .inr (.inl ⟨d, by simp [hd], hstart⟩)
    · exact .inr (.inr hrest)

theorem handleStart (h : Awaited s) (calls : List ChannelCall) (setup : Setup) (run : StartRun) :
    Awaited ({ s with calls }.handleStart setup run) := by
  unfold CameraApp.handleStart
  cases setup with
  | throws message | noTexture | serviceThrows message =>
    refine ⟨h.ended, fun _ => start_mem_timeline.mpr (.inl ?_)⟩
    simp [replyOperation]
  | ready =>
    have hadv := tryStart_answers { entry := s.entries } s.service run
    constructor
    · intro d hd
      rcases List.mem_append.mp hd with hd | hd
      · exact h.ended d hd
      · obtain rfl := List.mem_singleton.mp hd
        exact hadv.ended
    · intro _
      rw [start_mem_timeline]
      rcases hadv.startOperation_mem rfl with hreply | hopen
      · refine .inl ?_
        rw [List.filterMap_append, List.mem_append]
        exact .inr hreply
      · exact .inr (.inl ⟨_, List.mem_append_right _ (List.mem_singleton_self _), hopen⟩)

theorem handleCall (h : Awaited s) (setup : Setup) (run : StartRun) (pin : Option Text) :
    Awaited (s.handleCall setup run pin) := by
  unfold CameraApp.handleCall
  have hconnecting := h.connecting
  rw [start_mem_timeline] at hconnecting
  split
  · exact h
  · exact h.handleStart _ setup run
  · next calls hs =>
    refine ⟨h.ended, fun hc => start_mem_timeline.mpr ?_⟩
    have hbefore := hconnecting hc
    rw [hs] at hbefore
    simpa [CameraApp.handleStop, replyOperation, callOperation] using hbefore
  · next calls hs =>
    refine ⟨h.ended, fun hc => start_mem_timeline.mpr ?_⟩
    have hbefore := hconnecting hc
    rw [hs] at hbefore
    simpa [replyOperation, callOperation] using hbefore

theorem handleReply (h : Awaited s) : Awaited s.handleReply := by
  unfold CameraApp.handleReply
  split
  · exact h
  · next reply replies hs =>
    refine ⟨h.ended, fun hc => ?_⟩
    cases reply with
    | started entry | error code message => cases hc
    | stopped | pairingPin pin =>
      have hbefore := start_mem_timeline.mp (h.connecting hc)
      rw [hs] at hbefore
      rw [start_mem_timeline]
      simpa [replyOperation, VeyraCamController.handleReply] using hbefore

theorem permissionsAnswered (h : Awaited s) (answer : PermissionAnswer) :
    Awaited { s with
      controller := (s.controller.permissionsAnswered answer).1
      calls := s.calls ++ (s.controller.permissionsAnswered answer).2 } := by
  unfold VeyraCamController.permissionsAnswered
  split_ifs
  · simpa using h
  · cases answer.errorText with
    | none =>
      refine ⟨h.ended, fun _ => start_mem_timeline.mpr (.inr (.inr (.inl ?_)))⟩
      simp [callOperation]
    | some error => exact ⟨h.ended, fun hc => by cases hc⟩

theorem startStreaming (h : Awaited s) :
    Awaited { s with controller := s.controller.startStreaming } := by
  unfold VeyraCamController.startStreaming
  split_ifs
  · exact h
  · exact ⟨h.ended, fun _ => start_mem_timeline.mpr (.inr (.inr (.inr rfl)))⟩

theorem call (h : Awaited s) (calls : List ChannelCall) :
    Awaited { s with calls := s.calls ++ calls } := by
  refine ⟨h.ended, fun hc => ?_⟩
  have hbefore := start_mem_timeline.mp (h.connecting hc)
  rw [start_mem_timeline]
  dsimp only
  rw [List.filterMap_append, List.mem_append]
  exact hbefore.imp id (Or.imp id (Or.imp .inl id))

theorem proceed (h : Awaited s) (i : ℕ) {ready : StartCall → Bool} {go : StartCall → CameraApp}
    (hgo : ∀ c, s.starts[i]? = some c → ready c = true → Awaited (go c)) :
    Awaited (s.proceed i ready go) := by
  unfold CameraApp.proceed
  split
  · exact h
  · next c hc =>
    split_ifs with hready
    · exact hgo c hc hready
    · exact h

theorem step (h : Awaited s) (e : Event) : Awaited (s.step e).1 := by
  cases e with
  | startStreaming => exact h.startStreaming
  | permissionsAnswered answer => exact h.permissionsAnswered answer
  | stopStreaming => exact h.call _
  | tick => exact h.call _
  | handleCall setup run pin => exact h.handleCall setup run pin
  | handleReply => exact h.handleReply
  | retry i run =>
    exact h.proceed i fun c hs _ => h.update hs (tryStart_answers c s.service run) _
  | fallback i =>
    refine h.proceed i fun c hs _ => h.update hs ⟨fun _ => ?_, fun hc => .inl ?_⟩ s.service
    · exact resultReplied_answer c _
    · exact replied_answer c _ rfl hc
  | cameraReady i =>
    refine h.proceed i fun c hs _ => h.update hs ⟨fun _ => ?_, fun hc => .inl ?_⟩ s.service
    · exact resultReplied_answer c _
    · exact replied_answer c _ rfl hc
  | serviceCreated | actionStop | serviceDestroyed => exact ⟨h.ended, h.connecting⟩

end Awaited

end CameraApp

end VeyraCam
