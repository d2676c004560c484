import VeyraCam.Phone.CameraApp

/-! # What is under way in the app

The starts and stops whose replies have not been handled form one line, in which
a start comes last; what the last of them says of the stream is what the service
does.
-/

namespace VeyraCam

open StreamingService

/-! ## Whether the service streams -/

namespace StreamingService

theorem andThen_isStreaming {r : StreamingService × Bool}
    {next : StreamingService → StreamingService × Bool} {streaming : Bool}
    (h : r.1.isStreaming = streaming)
    (hnext : ∀ s, s.isStreaming = streaming → (next s).1.isStreaming = streaming) :
    (andThen r next).1.isStreaming = streaming := by
  unfold andThen
  split_ifs
  · exact hnext r.1 h
  · exact h

theorem setUp_isStreaming (s : StreamingService) (o : Outcomes) :
    (s.setUp o).1.isStreaming = s.isStreaming := by
  have hcreate (c : Component) (outcome : Outcome) (s : StreamingService) :
      (s.create c outcome).1.isStreaming = s.isStreaming := by
    cases outcome <;> rfl
  have hconstruct (c : Component) (constructed : Bool) (s : StreamingService) :
      (s.construct c constructed).1.isStreaming = s.isStreaming := by
    cases constructed <;> rfl
  have haudio (started : Bool) (s : StreamingService) :
      (s.startAudio started).isStreaming = s.isStreaming := by
    cases started <;> rfl
  unfold setUp
  refine andThen_isStreaming (by cases o.nativeSession <;> rfl) fun s h => ?_
  refine andThen_isStreaming ((hcreate _ _ s).trans h) fun s h => ?_
  refine andThen_isStreaming (Eq.trans (by cases o.encoder <;> rfl) h) fun s h => ?_
  refine andThen_isStreaming ((hcreate _ _ s).trans h) fun s h => ?_
  refine andThen_isStreaming ((hcreate _ _ _).trans ((haudio _ s).trans h)) fun s h => ?_
  refine andThen_isStreaming ((hconstruct _ _ s).trans h) fun s h => ?_
  exact andThen_isStreaming ((hconstruct _ _ s).trans h) fun s h => h

theorem stopStreaming_isStreaming (s : StreamingService) : s.stopStreaming.isStreaming = false := by
  unfold stopStreaming
  split_ifs with hidle
  · simpa using hidle
  · exact foldl_stop_isStreaming _ stopOrder

/-- A start returns exactly when the service streams then. -/
theorem startStreaming_isStreaming (s : StreamingService) (o : Outcomes) :
    (s.startStreaming o).1.isStreaming = (s.startStreaming o).2 := by
  unfold startStreaming
  split_ifs with hstreaming
  · exact hstreaming
  · simpa using hstreaming
  · have hset := setUp_isStreaming { s with isStreaming := true } o
    split
    · next t ht =>
      rw [ht] at hset
      exact hset
    · exact stopStreaming_isStreaming _

end StreamingService

namespace CameraApp

/-! ## The order of what is under way -/

inductive Operation where
  | start
  | stop
  deriving DecidableEq

def callOperation : ChannelCall → Option Operation
  | .startStreaming => some .start
  | .stopStreaming => some .stop
  | .getPairingPin => none

def replyOperation : ChannelReply → Option Operation
  | .started _ | .error _ _ => some .start
  | .stopped => some .stop
  | .pairingPin _ => none

def startOperation (c : StartCall) : Option Operation :=
  if c.resultReplied then none else some .start

/-- The starts and stops whose replies have not been handled, the first one first. -/
def timeline (s : CameraApp) : List Operation :=
  s.replies.filterMap replyOperation ++ s.starts.filterMap startOperation ++
    s.calls.filterMap callOperation ++ if s.controller.requesting then [.start] else []

/-- Only stops, and a start at the end if the controller is connecting. -/
def InOrder (connecting : Bool) : List Operation → Prop
  | [] => connecting = false
  | .stop :: operations => InOrder connecting operations
  | .start :: operations => connecting = true ∧ operations = []

def openEntry (starts : List StartCall) : Option ℕ :=
  starts.findSome? fun c =>
    if !c.resultReplied && c.stage = .started then some c.entry else none

def repliedEntry (replies : List ChannelReply) : Option ℕ :=
  replies.findSome? fun | .started entry => some entry | _ => none

/-- The entry that is shown, unless the stream has been stopped. -/
def shownEntry (c : VeyraCamController) (replies : List ChannelReply) : Option ℕ :=
  if c.isStreaming && !replies.contains .stopped then c.textureId else none

/-- The entry of the stream, according to what has last been said of it. -/
def expected (s : CameraApp) : Option ℕ :=
  openEntry s.starts <|> repliedEntry s.replies <|> shownEntry s.controller s.replies

def streams (s : CameraApp) : Bool := s.service.any StreamingService.isStreaming

/-- What the controller and the service have to do with each other. -/
structure Coherent (s : CameraApp) : Prop where
  inOrder : InOrder s.controller.isConnecting s.timeline
  exclusive : s.controller.isConnecting = true → s.controller.isStreaming = false
  streams : s.streams = s.expected.isSome
  surfaceEntry : ∀ entry ∈ s.expected, s.surfaceEntry = some entry
  textureId : s.controller.textureId.isSome = s.controller.isStreaming
  telemetrySub : s.controller.telemetrySub = s.controller.isStreaming
  pairingPinTimer : s.controller.pairingPinTimer = s.controller.isStreaming
  entry : ∀ c ∈ s.starts, c.resultReplied = false → s.surfaceEntry = some c.entry
  retrying : ∀ c ∈ s.starts, c.stage = .retrying → c.resultReplied = false

/-- A start that throws has not been answered for by the camera. -/
def Clean (service : Option StreamingService) (run : StartRun) : Prop :=
  run.cameraReady = true → ∀ t ∈ service, (t.startStreaming run.outcomes).2 = true

instance (service : Option StreamingService) (run : StartRun) : Decidable (Clean service run) :=
  match service with
  | none => isTrue fun _ _ hnone => by cases hnone
  | some t =>
    decidable_of_iff (run.cameraReady = true → (t.startStreaming run.outcomes).2 = true) <| by
      simp [Clean]

/-- Only the controller stops a stream. -/
def Attended (s : CameraApp) : Event → Prop
  | .handleCall _ run _ | .retry _ run => Clean s.service run
  | .actionStop | .serviceDestroyed => s.streams = false
  | _ => True

instance (s : CameraApp) : DecidablePred s.Attended
  | .handleCall _ run _ | .retry _ run => inferInstanceAs (Decidable (Clean s.service run))
  | .actionStop | .serviceDestroyed => inferInstanceAs (Decidable (s.streams = false))
  | .startStreaming | .permissionsAnswered _ | .stopStreaming | .tick | .handleReply | .fallback _
  | .cameraReady _ | .serviceCreated => isTrue trivial

/-- No call and no reply is under way. -/
structure AtRest (s : CameraApp) : Prop where
  calls : s.calls = []
  replies : s.replies = []
  starts : ∀ c ∈ s.starts, c.resultReplied = true
  requesting : s.controller.requesting = false

variable {s : CameraApp} {connecting : Bool} {xs ys : List Operation} {c c' : StartCall}
  {l₁ l₂ : List StartCall} {replies : List ChannelReply} {service : Option StreamingService}

theorem InOrder.start_last (h : InOrder connecting (xs ++ .start :: ys)) :
    connecting = true ∧ ys = [] ∧ InOrder false xs := by
  induction xs with
  | nil => exact ⟨h.1, h.2, rfl⟩
  | cons x xs ih =>
    cases x with
    | stop => exact ih h
    | start => exact absurd h.2 (by simp)

theorem InOrder.stop_middle (h : InOrder connecting (xs ++ .stop :: ys)) :
    InOrder connecting (xs ++ ys) ∧ .start ∉ xs := by
  induction xs with
  | nil => exact ⟨h, List.not_mem_nil⟩
  | cons x xs ih =>
    cases x with
    | stop =>
      obtain ⟨hrest, hnot⟩ := ih h
      exact ⟨hrest, by simpa using hnot⟩
    | start => exact absurd h.2 (by simp)

theorem InOrder.concat_start (h : InOrder false xs) : InOrder true (xs ++ [.start]) := by
  induction xs with
  | nil => exact ⟨rfl, rfl⟩
  | cons x xs ih =>
    cases x with
    | stop => exact ih h
    | start => cases h.1

theorem InOrder.concat_stop (h : InOrder false xs) : InOrder false (xs ++ [.stop]) := by
  induction xs with
  | nil => exact rfl
  | cons x xs ih =>
    cases x with
    | stop => exact ih h
    | start => cases h.1

theorem InOrder.start_notMem (h : InOrder false xs) : .start ∉ xs := by
  induction xs with
  | nil => exact List.not_mem_nil
  | cons x xs ih =>
    cases x with
    | stop => simpa using ih h
    | start => cases h.1

theorem InOrder.insert_stop (h : InOrder connecting (xs ++ ys)) (hxs : .start ∉ xs) :
    InOrder connecting (xs ++ .stop :: ys) := by
  induction xs with
  | nil => exact h
  | cons x xs ih =>
    cases x with
    | stop => exact ih h (by simpa using hxs)
    | start => exact absurd List.mem_cons_self hxs

theorem startOperations_eq_nil_iff {starts : List StartCall} :
    starts.filterMap startOperation = [] ↔ ∀ c ∈ starts, c.resultReplied = true := by
  rw [List.filterMap_eq_nil_iff]
  refine forall₂_congr fun c _ => ?_
  unfold startOperation
  split_ifs with h <;> simp [h]

theorem startOperations_eq_nil {starts : List StartCall}
    (h : .start ∉ starts.filterMap startOperation) : starts.filterMap startOperation = [] := by
  rw [startOperations_eq_nil_iff]
  intro c hc
  by_contra hreplied
  rw [Bool.not_eq_true] at hreplied
  exact h (List.mem_filterMap.mpr ⟨c, hc, by simp [startOperation, hreplied]⟩)

theorem openEntry_of_replied {starts : List StartCall} (h : ∀ c ∈ starts, c.resultReplied = true) :
    openEntry starts = none := by
  rw [openEntry, List.findSome?_eq_none_iff]
  intro c hc
  simp [h c hc]

theorem openEntry_middle (h₁ : ∀ d ∈ l₁, d.resultReplied = true)
    (h₂ : ∀ d ∈ l₂, d.resultReplied = true) :
    openEntry (l₁ ++ c :: l₂) =
      if !c.resultReplied && c.stage = .started then some c.entry else none := by
  rw [openEntry, List.findSome?_append, List.findSome?_cons]
  have hleft := openEntry_of_replied h₁
  have hright := openEntry_of_replied h₂
  unfold openEntry at hleft hright
  rw [hleft, hright]
  split_ifs <;> rfl

theorem repliedEntry_eq_none (h : Operation.start ∉ replies.filterMap replyOperation) :
    repliedEntry replies = none := by
  rw [repliedEntry, List.findSome?_eq_none_iff]
  intro reply hreply
  cases reply with
  | started entry =>
    exact absurd (List.mem_filterMap (f := replyOperation) |>.mpr ⟨_, hreply, rfl⟩) h
  | _ => rfl

end CameraApp

end VeyraCam
