import VeyraCam.Phone.AppTimeline

/-! # A start under way

While a start is under way, nothing else is but stops, and the calls that have
started streams before are done with. It goes on in one of three ways.
-/

namespace VeyraCam

open StreamingService

namespace CameraApp

variable {s : CameraApp} {c c' : StartCall} {l₁ l₂ : List StartCall} {replies : List ChannelReply}
  {service : Option StreamingService}

/-- All that is under way besides a start and stops; the calls that have started streams before are
done with. -/
structure Sole (s : CameraApp) (l₁ l₂ : List StartCall) : Prop where
  isConnecting : s.controller.isConnecting = true
  isStreaming : s.controller.isStreaming = false
  requesting : s.controller.requesting = false
  textureId : s.controller.textureId = none
  telemetrySub : s.controller.telemetrySub = false
  pairingPinTimer : s.controller.pairingPinTimer = false
  calls : s.calls.filterMap callOperation = []
  replies : InOrder false (s.replies.filterMap replyOperation)
  left : ∀ d ∈ l₁, d.resultReplied = true
  right : ∀ d ∈ l₂, d.resultReplied = true
  stage : ∀ d ∈ l₁ ++ l₂, d.stage ≠ .retrying

theorem Coherent.sole (h : Coherent s) (calls : List ChannelCall)
    (horder : s.timeline =
      (s.replies.filterMap replyOperation ++ l₁.filterMap startOperation) ++ .start ::
        (l₂.filterMap startOperation ++ (calls.filterMap callOperation ++
          if s.controller.requesting then [.start] else [])))
    (hmem : ∀ d ∈ l₁ ++ l₂, d ∈ s.starts) : Sole { s with calls } l₁ l₂ := by
  obtain ⟨hconnecting, hrest, hbefore⟩ := (horder ▸ h.inOrder).start_last
  simp only [List.append_eq_nil_iff] at hrest
  obtain ⟨hright, hcalls, hrequesting⟩ := hrest
  have hleft := startOperations_eq_nil fun hstart =>
    hbefore.start_notMem (List.mem_append_right _ hstart)
  rw [hleft, List.append_nil] at hbefore
  rw [startOperations_eq_nil_iff] at hleft hright
  have hstreaming := h.exclusive hconnecting
  refine ⟨hconnecting, hstreaming, ?_, ?_, h.telemetrySub.trans hstreaming,
    h.pairingPinTimer.trans hstreaming, hcalls, hbefore, hleft, hright, fun d hd hretrying => ?_⟩
  · dsimp only
    cases hr : s.controller.requesting
    · rfl
    · rw [hr] at hrequesting
      cases hrequesting
  · have hnone := h.textureId.trans hstreaming
    simpa using hnone
  · have hopen := h.retrying d (hmem d hd) hretrying
    rcases List.mem_append.mp hd with hd | hd
    · cases hopen.symm.trans (hleft d hd)
    · cases hopen.symm.trans (hright d hd)

theorem Coherent.sole_of_open (h : Coherent s) (hs : s.starts = l₁ ++ c :: l₂)
    (hc : c.resultReplied = false) : Sole s l₁ l₂ := by
  refine h.sole s.calls ?_ fun d hd => ?_
  · have hstart : startOperation c = some .start := by simp [startOperation, hc]
    unfold timeline
    rw [hs, List.filterMap_append, List.filterMap_cons_some hstart]
    simp only [List.append_assoc, List.cons_append]
  · rw [hs]
    rcases List.mem_append.mp hd with hd | hd
    · exact List.mem_append_left _ hd
    · exact List.mem_append_right _ (List.mem_cons_of_mem _ hd)

theorem Coherent.sole_of_call (h : Coherent s) {calls : List ChannelCall}
    (hs : s.calls = .startStreaming :: calls) : Sole { s with calls } s.starts [] := by
  refine h.sole calls ?_ fun d hd => by simpa using hd
  unfold timeline
  rw [hs]
  simp [callOperation]

theorem Sole.shownEntry (h : Sole s l₁ l₂) (replies : List ChannelReply) :
    shownEntry s.controller replies = none := by
  rw [CameraApp.shownEntry, h.isStreaming]
  rfl

/-- When a start comes next, what has last been said of the stream is said by it. -/
theorem Sole.expected_eq (h : Sole s l₁ l₂) (starts : List StartCall) (replies : List ChannelReply)
    (surfaceEntry : Option ℕ) (entries : ℕ) (service : Option StreamingService) :
    expected { s with
      starts, surfaceEntry, entries, replies := s.replies ++ replies, service := service } =
        (openEntry starts <|> repliedEntry replies) := by
  have hnone := repliedEntry_eq_none h.replies.start_notMem
  unfold CameraApp.expected
  rw [h.shownEntry, repliedEntry, List.findSome?_append]
  unfold repliedEntry at hnone ⊢
  rw [hnone]
  simp

theorem Sole.coherent (h : Sole s l₁ l₂) (starts : List StartCall)
    (service : Option StreamingService) {surfaceEntry : Option ℕ} (entries : ℕ)
    (horder : replies.filterMap replyOperation ++ starts.filterMap startOperation = [.start])
    (hservice : service.any StreamingService.isStreaming =
      (openEntry starts <|> repliedEntry replies).isSome)
    (hshown : ∀ entry ∈ openEntry starts <|> repliedEntry replies, surfaceEntry = some entry)
    (hentry : ∀ d ∈ starts, d.resultReplied = false → surfaceEntry = some d.entry)
    (hretrying : ∀ d ∈ starts, d.stage = .retrying → d.resultReplied = false) :
    Coherent { s with
      starts, surfaceEntry, entries, replies := s.replies ++ replies, service := service } := by
  have hexpected := h.expected_eq starts replies surfaceEntry entries service
  refine ⟨?_, fun _ => h.isStreaming, ?_, ?_, ?_, h.telemetrySub.trans h.isStreaming.symm,
    h.pairingPinTimer.trans h.isStreaming.symm, hentry, hretrying⟩
  · unfold timeline
    dsimp only
    rw [List.filterMap_append, List.append_assoc (s.replies.filterMap replyOperation), horder,
      h.calls, h.requesting, h.isConnecting]
    simpa using h.replies.concat_start
  · rw [hexpected]
    exact hservice
  · rw [hexpected]
    exact hshown
  · dsimp only
    rw [h.textureId, h.isStreaming]
    rfl

/-- How a call that has not been answered goes on: with what replies, and whether the service
streams then. -/
inductive Advances (c : StartCall) : StartCall → List ChannelReply → Bool → Prop
  | waits {c' : StartCall} (hentry : c'.entry = c.entry) (hreplied : c'.resultReplied = false) :
      Advances c c' [] (c'.stage = .started)
  | started {c' : StartCall} (hreplied : c'.resultReplied = true) (hstage : c'.stage ≠ .retrying) :
      Advances c c' [.started c.entry] true
  | failed {c' : StartCall} (hreplied : c'.resultReplied = true) (hstage : c'.stage ≠ .retrying)
      (code : Text) (message : Option Text) : Advances c c' [.error code message] false

variable {streaming : Bool}

theorem Advances.entry (h : Advances c c' replies streaming) (hc : c'.resultReplied = false) :
    c'.entry = c.entry := by
  cases h with
  | waits hentry => exact hentry
  | started hreplied | failed hreplied => cases hc.symm.trans hreplied

theorem Advances.retrying (h : Advances c c' replies streaming) (hstage : c'.stage = .retrying) :
    c'.resultReplied = false := by
  cases h with
  | waits _ hreplied => exact hreplied
  | started _ hstarted | failed _ hstarted => exact absurd hstage hstarted

theorem Advances.operations (h : Advances c c' replies streaming) :
    replies.filterMap replyOperation ++ (startOperation c').toList = [.start] := by
  cases h with
  | waits _ hreplied => simp [startOperation, hreplied]
  | started hreplied | failed hreplied => simp [startOperation, hreplied, replyOperation]

theorem Advances.openEntry (h : Advances c c' replies streaming) :
    ((if !c'.resultReplied && c'.stage = .started then some c'.entry else none) <|>
      repliedEntry replies) = if streaming then some c.entry else none := by
  cases h with
  | waits hentry hreplied =>
    simp only [hreplied, hentry, repliedEntry, List.findSome?_nil]
    by_cases hstage : c'.stage = .started <;> simp [hstage]
  | started hreplied => simp [hreplied, repliedEntry]
  | failed hreplied => simp [hreplied, repliedEntry]

theorem Sole.others (h : Sole s l₁ l₂) {d : StartCall} (hd : d ∈ l₁ ++ c :: l₂) :
    d = c ∨ d.resultReplied = true ∧ d.stage ≠ .retrying := by
  rcases List.mem_append.mp hd with hd | hd
  · exact .inr ⟨h.left d hd, h.stage d (List.mem_append_left _ hd)⟩
  · rcases List.mem_cons.mp hd with rfl | hd
    · exact .inl rfl
    · exact .inr ⟨h.right d hd, h.stage d (List.mem_append_right _ hd)⟩

theorem Sole.startOperations (h : Sole s l₁ l₂) (c : StartCall) :
    (l₁ ++ c :: l₂).filterMap startOperation = (startOperation c).toList := by
  rw [List.filterMap_append, List.filterMap_cons, startOperations_eq_nil_iff.mpr h.left,
    startOperations_eq_nil_iff.mpr h.right]
  cases startOperation c <;> rfl

theorem Sole.advance (h : Sole s l₁ l₂) (hentry : s.surfaceEntry = some c.entry)
    (hadv : Advances c c' replies streaming)
    (hservice : service.any StreamingService.isStreaming = streaming) :
    Coherent { s with
      starts := l₁ ++ c' :: l₂, replies := s.replies ++ replies, service := service } := by
  have hopen : (CameraApp.openEntry (l₁ ++ c' :: l₂) <|> repliedEntry replies) =
      if streaming then some c.entry else none := by
    rw [openEntry_middle h.left h.right, hadv.openEntry]
  refine h.coherent _ _ s.entries ?_ ?_ ?_ ?_ ?_
  · rw [h.startOperations, hadv.operations]
  · rw [hopen, hservice]
    cases streaming <;> rfl
  · rw [hopen]
    intro entry hmem
    split_ifs at hmem
    · obtain rfl := Option.some.inj hmem
      exact hentry
    · cases hmem
  · intro d hd hreplied
    rcases h.others hd with rfl | ⟨hanswered, -⟩
    · rw [hadv.entry hreplied]
      exact hentry
    · cases hreplied.symm.trans hanswered
  · intro d hd hretrying
    rcases h.others hd with rfl | ⟨-, hstage⟩
    · exact hadv.retrying hretrying
    · exact absurd hretrying hstage

theorem Sole.fail (h : Sole s l₁ []) (hstarts : s.starts = l₁) (hservice : s.streams = false)
    (code : Text) (message : Option Text) (surfaceEntry : Option ℕ) (entries : ℕ) :
    Coherent { s with
      surfaceEntry, entries, replies := s.replies ++ [.error code message] } := by
  subst hstarts
  have hopen : (CameraApp.openEntry s.starts <|> repliedEntry [.error code message]) = none := by
    rw [openEntry_of_replied h.left]
    rfl
  refine h.coherent s.starts s.service entries ?_ ?_ ?_ ?_ ?_
  · rw [startOperations_eq_nil_iff.mpr h.left]
    rfl
  · rw [hopen]
    exact hservice
  · rw [hopen]
    intro entry hmem
    cases hmem
  · intro d hd hreplied
    cases hreplied.symm.trans (h.left d hd)
  · intro d hd hretrying
    exact absurd hretrying (h.stage d (List.mem_append_left _ hd))

theorem startService_of_ready {service : StreamingService} {run : StartRun}
    (hc : c.resultReplied = false) (hidle : service.isStreaming = false)
    (hready : run.cameraReady = true) (hok : (service.startStreaming run.outcomes).2 = true) :
    c.startService service run =
      ({ c with stage := .started, opening := true, resultReplied := true },
        (service.startStreaming run.outcomes).1, [.started c.entry]) := by
  simp [StartCall.startService, StartCall.answer, hc, hidle, hready, hok]

theorem startService_of_returns {service : StreamingService} {run : StartRun}
    (hready : run.cameraReady = false) (hok : (service.startStreaming run.outcomes).2 = true) :
    c.startService service run =
      ({ c with stage := .started, opening := !service.isStreaming },
        (service.startStreaming run.outcomes).1, []) := by
  simp [StartCall.startService, hready, hok]

theorem startService_of_throws {service : StreamingService} {run : StartRun}
    (hc : c.resultReplied = false) (hready : run.cameraReady = false)
    (hthrows : (service.startStreaming run.outcomes).2 = false) :
    c.startService service run =
      ({ c with stage := .ended, resultReplied := true },
        (service.startStreaming run.outcomes).1, [StartCall.errorOf run]) := by
  simp [StartCall.startService, StartCall.answer, hc, hready, hthrows]

theorem exists_errorOf (run : StartRun) : ∃ code message,
    StartCall.errorOf run = .error code message := by
  unfold StartCall.errorOf
  split_ifs
  · exact ⟨_, _, rfl⟩
  · exact ⟨_, _, rfl⟩

theorem tryStart_advances (hc : c.resultReplied = false)
    (hservice : service.any StreamingService.isStreaming = false) {run : StartRun}
    (hclean : Clean service run) :
    Advances c (c.tryStart service run).1 (c.tryStart service run).2.2
      ((c.tryStart service run).2.1.any StreamingService.isStreaming) := by
  unfold StartCall.tryStart
  cases service with
  | none =>
    dsimp only
    split_ifs
    · exact .waits rfl hc
    · simp only [StartCall.answer, hc]
      exact .failed rfl (by simp) _ _
  | some service =>
    have hset := startStreaming_isStreaming service run.outcomes
    dsimp only [Option.any_some]
    cases hready : run.cameraReady with
    | true =>
      have hok := hclean hready service rfl
      rw [startService_of_ready hc hservice hready hok]
      dsimp only
      rw [hset, hok]
      exact .started rfl (by simp)
    | false =>
      cases hok : (service.startStreaming run.outcomes).2 with
      | true =>
        rw [startService_of_returns hready hok]
        dsimp only
        rw [hset, hok]
        exact @Advances.waits c { c with stage := .started, opening := !service.isStreaming }
          rfl hc
      | false =>
        obtain ⟨code, message, herror⟩ := exists_errorOf run
        rw [startService_of_throws hc hready hok, herror]
        dsimp only
        rw [hset, hok]
        exact .failed rfl (by simp) code message

end CameraApp

end VeyraCam
