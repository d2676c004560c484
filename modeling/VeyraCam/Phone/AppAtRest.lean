import VeyraCam.Phone.AppStarts

/-! # The app at rest

What the controller shows agrees with what the service does whenever no call and
no reply is under way.
-/

namespace VeyraCam

open StreamingService

namespace CameraApp

variable {s : CameraApp} {c c' : StartCall} {replies : List ChannelReply}
  {service : Option StreamingService} {streaming : Bool}

/-! ## Steps -/

theorem Coherent.handleStart (h : Coherent s) {calls : List ChannelCall}
    (hs : s.calls = .startStreaming :: calls) (setup : Setup) {run : StartRun}
    (hclean : Clean s.service run) : Coherent ({ s with calls }.handleStart setup run) := by
  have hsole := h.sole_of_call hs
  have hidle : s.streams = false := by
    rw [h.streams, expected, openEntry_of_replied hsole.left,
      repliedEntry_eq_none hsole.replies.start_notMem, hsole.shownEntry s.replies]
    rfl
  have hfail := hsole.fail rfl hidle
  cases setup with
  | throws message => exact hfail _ message s.surfaceEntry s.entries
  | noTexture => exact hfail _ _ none s.entries
  | serviceThrows message => exact hfail _ message (some s.entries) (s.entries + 1)
  | ready =>
    have hnew : Sole { s with
        calls, surfaceEntry := some s.entries, entries := s.entries + 1 } s.starts [] :=
      ⟨hsole.isConnecting, hsole.isStreaming, hsole.requesting, hsole.textureId,
        hsole.telemetrySub, hsole.pairingPinTimer, hsole.calls, hsole.replies, hsole.left,
        hsole.right, hsole.stage⟩
    exact hnew.advance rfl (tryStart_advances (c := { entry := s.entries }) rfl hidle hclean) rfl

theorem Coherent.handleStop (h : Coherent s) {calls : List ChannelCall}
    (hs : s.calls = .stopStreaming :: calls) : Coherent ({ s with calls }.handleStop) := by
  have horder := h.inOrder
  unfold timeline at horder
  rw [hs, List.filterMap_cons_some (rfl : callOperation .stopStreaming = some .stop)] at horder
  simp only [List.append_assoc, List.cons_append] at horder
  rw [← List.append_assoc] at horder
  obtain ⟨hrest, hnot⟩ := horder.stop_middle
  have hstarts := startOperations_eq_nil fun hmem => hnot (List.mem_append_right _ hmem)
  have hanswered := startOperations_eq_nil_iff.mp hstarts
  have hreplies : .start ∉ s.replies.filterMap replyOperation := fun hmem =>
    hnot (List.mem_append_left _ hmem)
  have hexpected : ({ s with calls }.handleStop).expected = none := by
    have hnone := repliedEntry_eq_none hreplies
    unfold expected CameraApp.handleStop shownEntry
    dsimp only
    rw [openEntry_of_replied hanswered, repliedEntry, List.findSome?_append]
    unfold repliedEntry at hnone
    rw [hnone]
    simp
  constructor
  · rw [hstarts, List.append_nil] at hrest
    have hmoved := hrest.insert_stop hreplies
    unfold timeline CameraApp.handleStop
    dsimp only
    rw [hstarts, List.filterMap_append]
    simpa [replyOperation] using hmoved
  · exact h.exclusive
  · rw [hexpected]
    unfold CameraApp.streams CameraApp.handleStop
    cases s.service with
    | none => rfl
    | some service => exact stopStreaming_isStreaming service
  · rw [hexpected]
    intro entry hmem
    cases hmem
  · exact h.textureId
  · exact h.telemetrySub
  · exact h.pairingPinTimer
  · intro c hc hreplied
    cases hreplied.symm.trans (hanswered c hc)
  · exact h.retrying

theorem Coherent.getPairingPin (h : Coherent s) {calls : List ChannelCall}
    (hs : s.calls = .getPairingPin :: calls) (pin : Option Text) :
    Coherent { s with calls, replies := s.replies ++ [.pairingPin pin] } := by
  have hexpected : expected { s with calls, replies := s.replies ++ [.pairingPin pin] } =
      s.expected := by
    unfold expected shownEntry repliedEntry
    dsimp only
    rw [List.findSome?_append]
    simp
  refine ⟨?_, h.exclusive, ?_, ?_, h.textureId, h.telemetrySub, h.pairingPinTimer, h.entry,
    h.retrying⟩
  · have horder := h.inOrder
    unfold timeline at horder ⊢
    dsimp only
    rw [hs, List.filterMap_cons_none (rfl : callOperation .getPairingPin = none)] at horder
    rw [List.filterMap_append,
      List.filterMap_cons_none (rfl : replyOperation (.pairingPin pin) = none), List.filterMap_nil,
      List.append_nil]
    exact horder
  · rw [hexpected]
    exact h.streams
  · rw [hexpected]
    exact h.surfaceEntry

theorem Coherent.handleCall (h : Coherent s) (setup : Setup) {run : StartRun}
    (hclean : Clean s.service run) (pin : Option Text) : Coherent (s.handleCall setup run pin) := by
  unfold CameraApp.handleCall
  split
  · exact h
  · next calls hs => exact h.handleStart hs setup hclean
  · next calls hs => exact h.handleStop hs
  · next calls hs => exact h.getPairingPin hs _

theorem repliedEntry_cons (reply : ChannelReply) (replies : List ChannelReply)
    (h : ∀ entry, reply ≠ .started entry) :
    repliedEntry (reply :: replies) = repliedEntry replies := by
  unfold repliedEntry
  rw [List.findSome?_cons]
  cases reply with
  | started entry => exact absurd rfl (h entry)
  | _ => rfl

theorem Coherent.after_start (h : Coherent s) {reply : ChannelReply}
    (hs : s.replies = reply :: replies) (hreply : replyOperation reply = some .start) :
    s.controller.isStreaming = false ∧ timeline { s with replies } = [] := by
  have horder := h.inOrder
  unfold timeline at horder
  rw [hs, List.filterMap_cons_some hreply] at horder
  obtain ⟨hconnecting, hrest, -⟩ := @InOrder.start_last _ [] _ horder
  exact ⟨h.exclusive hconnecting, hrest⟩

theorem Coherent.started (h : Coherent s) {entry : ℕ}
    (hs : s.replies = .started entry :: replies) :
    Coherent { s with replies, controller := s.controller.handleReply (.started entry) } := by
  obtain ⟨-, hrest⟩ := h.after_start hs rfl
  have hparts := hrest
  simp only [timeline, List.append_eq_nil_iff] at hparts
  obtain ⟨⟨⟨hreplies, hstarts⟩, -⟩, -⟩ := hparts
  have hopen := openEntry_of_replied (startOperations_eq_nil_iff.mp hstarts)
  have hnone : repliedEntry replies = none := repliedEntry_eq_none (by simp [hreplies])
  have hstopped : ChannelReply.stopped ∉ replies := by
    intro hmem
    have hstop : Operation.stop ∈ replies.filterMap replyOperation :=
      List.mem_filterMap.mpr ⟨_, hmem, rfl⟩
    rw [hreplies] at hstop
    cases hstop
  have hbefore : s.expected = some entry := by
    unfold expected
    rw [hopen, hs]
    rfl
  have hafter : expected { s with
      replies, controller := s.controller.handleReply (.started entry) } = some entry := by
    unfold expected shownEntry
    dsimp only
    rw [hopen, hnone]
    simp [VeyraCamController.handleReply, VeyraCamController.listenTelemetry, hstopped]
  refine ⟨?_, fun hconnecting => ?_, ?_, ?_, rfl, rfl, rfl, h.entry, h.retrying⟩
  · have hsame : timeline { s with
        replies, controller := s.controller.handleReply (.started entry) } = [] := hrest
    rw [hsame]
    rfl
  · cases hconnecting
  · rw [hafter, ← hbefore]
    exact h.streams
  · rw [hafter, ← hbefore]
    exact h.surfaceEntry

theorem Coherent.failed (h : Coherent s) {code : Text} {message : Option Text}
    (hs : s.replies = .error code message :: replies) :
    Coherent { s with replies, controller := s.controller.handleReply (.error code message) } := by
  obtain ⟨hidle, hrest⟩ := h.after_start hs rfl
  have hexpected : expected { s with
      replies, controller := s.controller.handleReply (.error code message) } = s.expected := by
    unfold expected shownEntry
    rw [hs, repliedEntry_cons _ replies (by simp), hidle]
    rfl
  refine ⟨?_, fun hconnecting => ?_, ?_, ?_, ?_, ?_, ?_, h.entry, h.retrying⟩
  · have hsame : timeline { s with
        replies, controller := s.controller.handleReply (.error code message) } = [] := hrest
    rw [hsame]
    rfl
  · cases hconnecting
  · rw [hexpected]
    exact h.streams
  · rw [hexpected]
    exact h.surfaceEntry
  · exact h.textureId.trans hidle
  · exact h.telemetrySub.trans hidle
  · exact h.pairingPinTimer.trans hidle

theorem Coherent.stopped (h : Coherent s) (hs : s.replies = .stopped :: replies) :
    Coherent { s with replies, controller := s.controller.handleReply .stopped } := by
  have hexpected : expected { s with
      replies, controller := s.controller.handleReply .stopped } = s.expected := by
    unfold expected shownEntry
    rw [hs, repliedEntry_cons _ replies (by simp)]
    simp [VeyraCamController.handleReply]
  refine ⟨?_, fun _ => rfl, ?_, ?_, rfl, rfl, rfl, h.entry, h.retrying⟩
  · have horder := h.inOrder
    unfold timeline at horder
    rw [hs, List.filterMap_cons_some (rfl : replyOperation .stopped = some .stop)] at horder
    exact horder
  · rw [hexpected]
    exact h.streams
  · rw [hexpected]
    exact h.surfaceEntry

theorem Coherent.pinAnswered (h : Coherent s) {pin : Option Text}
    (hs : s.replies = .pairingPin pin :: replies) :
    Coherent { s with replies, controller := s.controller.handleReply (.pairingPin pin) } := by
  have hexpected : expected { s with
      replies, controller := s.controller.handleReply (.pairingPin pin) } = s.expected := by
    unfold expected shownEntry
    rw [hs, repliedEntry_cons _ replies (by simp)]
    simp [VeyraCamController.handleReply]
  refine ⟨?_, h.exclusive, ?_, ?_, h.textureId, h.telemetrySub, h.pairingPinTimer, h.entry,
    h.retrying⟩
  · have horder := h.inOrder
    unfold timeline at horder
    rw [hs, List.filterMap_cons_none (rfl : replyOperation (.pairingPin pin) = none)] at horder
    exact horder
  · rw [hexpected]
    exact h.streams
  · rw [hexpected]
    exact h.surfaceEntry

theorem Coherent.handleReply (h : Coherent s) : Coherent s.handleReply := by
  unfold CameraApp.handleReply
  split
  · exact h
  · next reply replies hs =>
    cases reply with
    | started entry => exact h.started hs
    | error code message => exact h.failed hs
    | stopped => exact h.stopped hs
    | pairingPin pin => exact h.pinAnswered hs

theorem Coherent.startStreaming (h : Coherent s) :
    Coherent { s with controller := s.controller.startStreaming } := by
  unfold VeyraCamController.startStreaming
  split_ifs with hbusy
  · exact h
  · rw [Bool.not_eq_true, Bool.or_eq_false_iff] at hbusy
    obtain ⟨hidle, hconnecting⟩ := hbusy
    have horder := h.inOrder
    rw [hconnecting] at horder
    have hrequesting : s.controller.requesting = false := by
      by_contra hrequesting
      rw [Bool.not_eq_false] at hrequesting
      refine horder.start_notMem ?_
      simp [timeline, hrequesting]
    refine ⟨?_, fun _ => hidle, h.streams, h.surfaceEntry, h.textureId, h.telemetrySub,
      h.pairingPinTimer, h.entry, h.retrying⟩
    have hlast := horder.concat_start
    unfold timeline at hlast ⊢
    rw [hrequesting] at hlast
    simpa using hlast

theorem Coherent.permissionsAnswered (h : Coherent s) (answer : PermissionAnswer) :
    Coherent { s with
      controller := (s.controller.permissionsAnswered answer).1
      calls := s.calls ++ (s.controller.permissionsAnswered answer).2 } := by
  unfold VeyraCamController.permissionsAnswered
  split_ifs with hrequesting
  · simpa using h
  · rw [Bool.not_eq_true, Bool.not_eq_false'] at hrequesting
    have horder := h.inOrder
    unfold timeline at horder
    rw [hrequesting, if_pos rfl] at horder
    obtain ⟨hconnecting, -, hbefore⟩ := horder.start_last
    cases answer.errorText with
    | none =>
      refine ⟨?_, h.exclusive, h.streams, h.surfaceEntry, h.textureId, h.telemetrySub,
        h.pairingPinTimer, h.entry, h.retrying⟩
      unfold timeline
      dsimp only
      rw [List.filterMap_append]
      simpa [callOperation] using horder
    | some error =>
      refine ⟨?_, fun hc => ?_, h.streams, h.surfaceEntry, h.textureId, h.telemetrySub,
        h.pairingPinTimer, h.entry, h.retrying⟩
      · unfold timeline
        dsimp only
        simpa using hbefore
      · cases hc

theorem Coherent.stopStreaming (h : Coherent s) :
    Coherent { s with calls := s.calls ++ s.controller.stopStreaming } := by
  unfold VeyraCamController.stopStreaming
  split_ifs with hidle
  · simpa using h
  · rw [Bool.not_eq_true, Bool.not_eq_false'] at hidle
    have hconnecting : s.controller.isConnecting = false := by
      by_contra hconnecting
      rw [Bool.not_eq_false] at hconnecting
      cases hidle.symm.trans (h.exclusive hconnecting)
    have horder := h.inOrder
    rw [hconnecting] at horder
    have hrequesting : s.controller.requesting = false := by
      by_contra hrequesting
      rw [Bool.not_eq_false] at hrequesting
      refine horder.start_notMem ?_
      simp [timeline, hrequesting]
    refine ⟨?_, h.exclusive, h.streams, h.surfaceEntry, h.textureId, h.telemetrySub,
      h.pairingPinTimer, h.entry, h.retrying⟩
    have hlast := horder.concat_stop
    unfold timeline at hlast ⊢
    dsimp only
    rw [hrequesting] at hlast
    rw [hconnecting, hrequesting, List.filterMap_append]
    simpa [callOperation] using hlast

theorem Coherent.tick (h : Coherent s) :
    Coherent { s with
      calls := s.calls ++ if s.controller.pairingPinTimer then [.getPairingPin] else [] } := by
  refine ⟨?_, h.exclusive, h.streams, h.surfaceEntry, h.textureId, h.telemetrySub,
    h.pairingPinTimer, h.entry, h.retrying⟩
  have hnone : (if s.controller.pairingPinTimer then [ChannelCall.getPairingPin] else []).filterMap
      callOperation = [] := by
    split_ifs <;> rfl
  have horder := h.inOrder
  unfold timeline at horder ⊢
  dsimp only
  rw [List.filterMap_append, hnone, List.append_nil]
  exact horder

theorem exists_split {i : ℕ} (h : s.starts[i]? = some c) :
    ∃ l₁ l₂, s.starts = l₁ ++ c :: l₂ ∧ ∀ c', s.starts.set i c' = l₁ ++ c' :: l₂ := by
  obtain ⟨hi, hget⟩ := List.getElem?_eq_some_iff.mp h
  refine ⟨s.starts.take i, s.starts.drop (i + 1), ?_, fun c' => ?_⟩
  · rw [← hget, List.getElem_cons_drop, List.take_append_drop]
  · exact List.set_eq_take_append_cons_drop.trans (if_pos hi)

theorem Coherent.update (h : Coherent s) (service : Option StreamingService) {i : ℕ}
    (hs : s.starts[i]? = some c) (hc : c.resultReplied = false)
    (hadv : Advances c c' replies streaming)
    (hservice : service.any StreamingService.isStreaming = streaming) :
    Coherent { s.update i c' replies with service := service } := by
  obtain ⟨l₁, l₂, hsplit, hset⟩ := exists_split hs
  have hmoved := (h.sole_of_open hsplit hc).advance
    (h.entry c (List.mem_of_getElem? hs) hc) hadv hservice
  unfold CameraApp.update
  rw [hset]
  exact hmoved

theorem Coherent.update_answered (h : Coherent s) {i : ℕ} (hs : s.starts[i]? = some c)
    (hc : c.resultReplied = true) (hc' : c'.resultReplied = true) (hstage : c'.stage ≠ .retrying) :
    Coherent (s.update i c' []) := by
  obtain ⟨l₁, l₂, hsplit, hset⟩ := exists_split hs
  have hmem : ∀ d ∈ l₁ ++ c' :: l₂, d = c' ∨ d ∈ s.starts := by
    intro d hd
    rw [hsplit]
    rcases List.mem_append.mp hd with hd | hd
    · exact .inr (List.mem_append_left _ hd)
    · rcases List.mem_cons.mp hd with rfl | hd
      · exact .inl rfl
      · exact .inr (List.mem_append_right _ (List.mem_cons_of_mem _ hd))
  have hopen : openEntry (l₁ ++ c' :: l₂) = openEntry s.starts := by
    rw [hsplit]
    simp [openEntry, List.findSome?_append, hc, hc']
  have hstart : (l₁ ++ c' :: l₂).filterMap startOperation = s.starts.filterMap startOperation := by
    rw [hsplit]
    simp [startOperation, hc, hc']
  have hexpected : (s.update i c' []).expected = s.expected := by
    unfold expected CameraApp.update
    dsimp only
    rw [hset, hopen, List.append_nil]
  unfold CameraApp.update at hexpected ⊢
  refine ⟨?_, h.exclusive, ?_, ?_, h.textureId, h.telemetrySub, h.pairingPinTimer, ?_, ?_⟩
  · have horder := h.inOrder
    unfold timeline at horder ⊢
    dsimp only
    rw [hset, hstart, List.append_nil]
    exact horder
  · rw [hexpected]
    exact h.streams
  · rw [hexpected]
    exact h.surfaceEntry
  · dsimp only
    rw [hset]
    intro d hd hreplied
    rcases hmem d hd with rfl | hd
    · cases hreplied.symm.trans hc'
    · exact h.entry d hd hreplied
  · dsimp only
    rw [hset]
    intro d hd hretrying
    rcases hmem d hd with rfl | hd
    · exact absurd hretrying hstage
    · exact h.retrying d hd hretrying

theorem Coherent.withService (h : Coherent s) (hservice : service.any StreamingService.isStreaming =
    s.streams) : Coherent { s with service := service } :=
  ⟨h.inOrder, h.exclusive, hservice.trans h.streams, h.surfaceEntry, h.textureId, h.telemetrySub,
    h.pairingPinTimer, h.entry, h.retrying⟩

theorem Coherent.retry (h : Coherent s) {i : ℕ} (hs : s.starts[i]? = some c)
    (hstage : c.stage = .retrying) {run : StartRun} (hclean : Clean s.service run) :
    Coherent { s.update i (c.tryStart s.service run).1 (c.tryStart s.service run).2.2 with
      service := (c.tryStart s.service run).2.1 } := by
  have hc := h.retrying c (List.mem_of_getElem? hs) hstage
  obtain ⟨l₁, l₂, hsplit, -⟩ := exists_split hs
  have hsole := h.sole_of_open hsplit hc
  have hidle : s.streams = false := by
    rw [h.streams, expected, hsplit, openEntry_middle hsole.left hsole.right,
      repliedEntry_eq_none hsole.replies.start_notMem, hsole.shownEntry, hstage]
    simp
  exact h.update _ hs hc (tryStart_advances hc hidle hclean) rfl

/-- A stream that has been started and not been answered for is running. -/
theorem Coherent.streams_of_open (h : Coherent s) {i : ℕ} (hs : s.starts[i]? = some c)
    (hc : c.resultReplied = false) (hstage : c.stage = .started) : s.streams = true := by
  obtain ⟨l₁, l₂, hsplit, -⟩ := exists_split hs
  have hsole := h.sole_of_open hsplit hc
  rw [h.streams, expected, hsplit, openEntry_middle hsole.left hsole.right, hc, hstage]
  rfl

theorem Coherent.fallback (h : Coherent s) {i : ℕ} (hs : s.starts[i]? = some c)
    (hstage : c.stage = .started) : Coherent (s.update i c.fallback.1 c.fallback.2) := by
  unfold StartCall.fallback StartCall.answer
  cases hc : c.resultReplied with
  | true => exact h.update_answered hs hc hc (by simp)
  | false =>
    exact h.update s.service hs hc (.started rfl (by simp))
      (h.streams_of_open hs hc hstage)

theorem Coherent.cameraReady (h : Coherent s) {i : ℕ} (hs : s.starts[i]? = some c)
    (hstage : c.stage = .started) :
    Coherent (s.update i (c.answer (.started c.entry)).1 (c.answer (.started c.entry)).2) := by
  unfold StartCall.answer
  cases hc : c.resultReplied with
  | true => exact h.update_answered hs hc hc (by simp [hstage])
  | false =>
    exact h.update s.service hs hc (.started rfl (by simp [hstage]))
      (h.streams_of_open hs hc hstage)

theorem Coherent.proceed (h : Coherent s) (i : ℕ) {ready : StartCall → Bool}
    {go : StartCall → CameraApp}
    (hgo : ∀ c, s.starts[i]? = some c → ready c = true → Coherent (go c)) :
    Coherent (s.proceed i ready go) := by
  unfold CameraApp.proceed
  split
  · exact h
  · next c hc =>
    split_ifs with hready
    · exact hgo c hc hready
    · exact h

theorem Coherent.step (h : Coherent s) {e : Event} (hg : s.Attended e) :
    Coherent (s.step e).1 := by
  cases e with
  | startStreaming => exact h.startStreaming
  | permissionsAnswered answer => exact h.permissionsAnswered answer
  | stopStreaming => exact h.stopStreaming
  | tick => exact h.tick
  | handleCall setup run pin => exact h.handleCall setup hg pin
  | handleReply => exact h.handleReply
  | retry i run =>
    exact h.proceed i fun c hs hready => h.retry hs (of_decide_eq_true hready) hg
  | fallback i => exact h.proceed i fun c hs hready => h.fallback hs (of_decide_eq_true hready)
  | cameraReady i =>
    refine h.proceed i fun c hs hready => h.cameraReady hs ?_
    rw [Bool.and_eq_true] at hready
    exact of_decide_eq_true hready.1
  | serviceCreated =>
    refine h.withService ?_
    unfold CameraApp.streams
    cases s.service <;> rfl
  | actionStop =>
    refine h.withService (Eq.trans ?_ (Eq.symm hg))
    cases s.service with
    | none => rfl
    | some service => exact stopStreaming_isStreaming service
  | serviceDestroyed => exact h.withService (Eq.symm hg)

theorem coherent_init : Coherent {} where
  inOrder := rfl
  exclusive := fun _ => rfl
  streams := rfl
  surfaceEntry := fun _ hmem => by cases hmem
  textureId := rfl
  telemetrySub := rfl
  pairingPinTimer := rfl
  entry := fun _ hmem => by cases hmem
  retrying := fun _ hmem => by cases hmem

/-- The controller shows what the service does. -/
structure Agrees (s : CameraApp) : Prop where
  isConnecting : s.controller.isConnecting = false
  isStreaming : s.controller.isStreaming = s.streams
  textureId : s.controller.textureId = if s.streams then s.surfaceEntry else none
  shown : s.streams = true → s.controller.textureId ≠ none
  telemetrySub : s.controller.telemetrySub = s.streams
  pairingPinTimer : s.controller.pairingPinTimer = s.streams

theorem Coherent.agrees (h : Coherent s) (hrest : s.AtRest) : s.Agrees := by
  have horder := h.inOrder
  have hexpected : s.expected = s.controller.textureId := by
    unfold expected shownEntry
    rw [openEntry_of_replied hrest.starts, hrest.replies]
    cases hstreaming : s.controller.isStreaming with
    | true => simp [repliedEntry]
    | false =>
      have hnone : s.controller.textureId = none := by simpa using h.textureId.trans hstreaming
      rw [hnone]
      rfl
  have hstreams : s.controller.isStreaming = s.streams := by
    rw [h.streams, hexpected, h.textureId]
  refine ⟨?_, hstreams, ?_, fun hs => ?_, h.telemetrySub.trans hstreams,
    h.pairingPinTimer.trans hstreams⟩
  · unfold timeline at horder
    rw [hrest.calls, hrest.replies, hrest.requesting,
      startOperations_eq_nil_iff.mpr hrest.starts] at horder
    exact horder
  · split_ifs with hs
    · have hsome := hs
      rw [h.streams, hexpected, Option.isSome_iff_exists] at hsome
      obtain ⟨entry, hentry⟩ := hsome
      rw [hentry, h.surfaceEntry entry (hexpected.trans hentry)]
    · rw [h.streams, hexpected] at hs
      simpa using hs
  · rw [h.streams, hexpected] at hs
    exact Option.ne_none_iff_isSome.mpr hs

theorem coherent_exec {events : List Event} (h : Machine.Guarded step Attended s events)
    (hs : Coherent s) : Coherent (Machine.exec step s events).1 :=
  (h.invariant (I := Coherent) (P := fun _ => True)
    (fun _ _ hcoherent hg => ⟨hcoherent.step hg, fun _ _ => trivial⟩) hs).1

/-- Whatever the user does and however calls, replies, the service and the camera interleave, as
long as nobody else stops the stream: when nothing is under way, the controller shows what the
service does, and the texture is the one of the stream. -/
theorem agrees_at_rest {events : List Event} (h : Machine.Guarded step Attended {} events)
    (hrest : (Machine.exec step {} events).1.AtRest) : (Machine.exec step {} events).1.Agrees :=
  (coherent_exec h coherent_init).agrees hrest

/-- The service is there only after a retry, and the camera is ready before the plugin answers. -/
def sampleStart : List Event :=
  [.startStreaming, .permissionsAnswered .granted, .handleCall .ready {} none, .serviceCreated,
    .retry 0 {}]

def sampleOwn : List Event := [.cameraReady 0, .handleReply, .fallback 0]

theorem agrees_at_rest_sample :
    (Machine.exec step {} (sampleStart ++ sampleOwn)).1.streams = true ∧
      (Machine.exec step {} (sampleStart ++ sampleOwn)).1.Agrees :=
  ⟨by decide, agrees_at_rest (by decide) ⟨by decide, by decide, by decide, by decide⟩⟩

-- The notification stops the stream, which the controller does not learn.
example :
    let s := (Machine.exec step {} (sampleStart ++ sampleOwn ++ [.actionStop])).1
    s.calls = [] ∧ s.replies = [] ∧ s.controller.isStreaming = true ∧ s.streams = false := by
  decide

end CameraApp

end VeyraCam
