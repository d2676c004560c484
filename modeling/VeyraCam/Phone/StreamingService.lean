import Mathlib.Data.Finset.Erase
import Mathlib.Data.Finset.Insert
import Mathlib.Logic.Function.Basic
import VeyraCam.Library.Machine

/-! # Starting the streaming service

`startStreaming` makes one component after another and takes everything back with
`stopStreaming` when one of them throws. It clears `isStreaming` first, and
`stopStreaming` does nothing while that flag is clear: what was made remains.
-/

namespace VeyraCam

namespace StreamingService

inductive Component where
  | nativeSession
  | thermalController
  | encoder
  | cameraController
  | audioEngine
  | udpTransport
  | bluetoothTransport
  | usbTransport
  deriving DecidableEq

/-- How a start ends. A component that throws in the middle of it may hold something by then. -/
inductive Outcome where
  | succeeds
  | throws (acquired : Bool)
  deriving DecidableEq

/-- How the creation of the native session ends: with a handle, also when `nativeGetSessionId`
turns out not to be linked, with zero, or with an exception of `nativeCreateSession`. -/
inductive NativeOutcome where
  | handle
  | unlinked
  | zero
  | throws
  deriving DecidableEq

def NativeOutcome.makesSession : NativeOutcome → Bool
  | handle | unlinked => true
  | zero | throws => false

/-- How the parts of a call of `startStreaming` end. The encoder and the audio engine release what
they hold when their start throws; a start of the Bluetooth and USB transports may throw, but only
their constructors are waited for. -/
structure Outcomes where
  permitted : Bool := true
  nativeSession : NativeOutcome := .handle
  thermalController : Outcome := .succeeds
  encoder : Bool := true
  cameraController : Outcome := .succeeds
  audioEngine : Bool := true
  udpTransport : Outcome := .succeeds
  bluetoothTransport : Bool := true
  usbTransport : Bool := true
  updateNotification : Bool := true
  deriving DecidableEq

inductive Event where
  | startStreaming (outcomes : Outcomes)
  | stopStreaming
  deriving DecidableEq

end StreamingService

open StreamingService

/-- `VeyraStreamingService`: the fields of its components, with a number for each instance, and the
instances that have been made and neither stopped nor destroyed. A native handle of zero is no
instance. -/
structure StreamingService where
  isStreaming : Bool := false
  field : Component → Option ℕ := fun _ => none
  live : Finset (Component × ℕ) := ∅
  made : ℕ := 0

namespace StreamingService

/-- The field, the instance behind it and the next number. -/
def hold (s : StreamingService) (c : Component) : StreamingService :=
  { s with
    field := Function.update s.field c (some s.made)
    live := insert (c, s.made) s.live
    made := s.made + 1 }

/-- What comes next, unless there has been an exception. -/
def andThen (r : StreamingService × Bool) (next : StreamingService → StreamingService × Bool) :
    StreamingService × Bool :=
  if r.2 then next r.1 else r

def createNativeSession (s : StreamingService) : NativeOutcome → StreamingService × Bool
  | .handle => (s.hold .nativeSession, true)
  | .unlinked => (s.hold .nativeSession, false)
  | .zero => ({ s with field := Function.update s.field .nativeSession none }, false)
  | .throws => (s, false)

/-- A component whose field is set to `apply { start() }`. -/
def create (s : StreamingService) (c : Component) : Outcome → StreamingService × Bool
  | .succeeds => (s.hold c, true)
  | .throws acquired =>
    ({ s with
        live := if acquired then insert (c, s.made) s.live else s.live
        made := s.made + 1 }, false)

/-- The field of the encoder is set before its start. -/
def startEncoder (s : StreamingService) (started : Bool) : StreamingService × Bool :=
  if started then (s.hold .encoder, true)
  else
    ({ s with
        field := Function.update s.field .encoder (some s.made)
        made := s.made + 1 }, false)

/-- The exception of the audio engine is not fatal. -/
def startAudio (s : StreamingService) (started : Bool) : StreamingService :=
  if started then s.hold .audioEngine else s

def construct (s : StreamingService) (c : Component) (constructed : Bool) :
    StreamingService × Bool :=
  if constructed then (s.hold c, true) else (s, false)

/-- The `try` of `startStreaming`, and whether it comes to its end. -/
def setUp (s : StreamingService) (o : Outcomes) : StreamingService × Bool :=
  andThen (s.createNativeSession o.nativeSession) fun s =>
  andThen (s.create .thermalController o.thermalController) fun s =>
  andThen (s.startEncoder o.encoder) fun s =>
  andThen (s.create .cameraController o.cameraController) fun s =>
  andThen ((s.startAudio o.audioEngine).create .udpTransport o.udpTransport) fun s =>
  andThen (s.construct .bluetoothTransport o.bluetoothTransport) fun s =>
  andThen (s.construct .usbTransport o.usbTransport) fun s =>
  (s, o.updateNotification)

/-- `field?.stop()` and `field = null`. -/
def stop (s : StreamingService) (c : Component) : StreamingService :=
  match s.field c with
  | none => s
  | some n =>
    { s with field := Function.update s.field c none, live := s.live.erase (c, n) }

def stopOrder : List Component :=
  [.cameraController, .encoder, .audioEngine, .thermalController, .udpTransport,
    .bluetoothTransport, .usbTransport, .nativeSession]

def stopStreaming (s : StreamingService) : StreamingService :=
  if !s.isStreaming then s else stopOrder.foldl stop { s with isStreaming := false }

/-- `VeyraStreamingService.startStreaming`, and whether it returns. -/
def startStreaming (s : StreamingService) (o : Outcomes) : StreamingService × Bool :=
  if s.isStreaming then (s, true)
  else if !o.permitted then (s, false)
  else
    match { s with isStreaming := true }.setUp o with
    | (s, true) => (s, true)
    | (s, false) => ({ s with isStreaming := false }.stopStreaming, false)

def step (s : StreamingService) : Event → StreamingService × List Bool
  | .startStreaming o => ((s.startStreaming o).1, [(s.startStreaming o).2])
  | .stopStreaming => (s.stopStreaming, [true])

/-- What is live is what the fields hold. -/
def Linked (s : StreamingService) : Prop := ∀ c n, (c, n) ∈ s.live ↔ s.field c = some n

/-- Without a stream nothing is there; with one, what is live is what the fields hold, and only
the audio engine may be missing. -/
def AllOrNothing (s : StreamingService) : Prop :=
  s.Linked ∧ ∀ c, if s.isStreaming then c ≠ .audioEngine → s.field c ≠ none else s.field c = none

structure Outcomes.Complete (o : Outcomes) : Prop where
  nativeSession : o.nativeSession = .handle
  thermalController : o.thermalController = .succeeds
  encoder : o.encoder = true
  cameraController : o.cameraController = .succeeds
  udpTransport : o.udpTransport = .succeeds
  bluetoothTransport : o.bluetoothTransport = true
  usbTransport : o.usbTransport = true
  updateNotification : o.updateNotification = true

/-- A start that is attempted and throws does so before there is a native session. -/
def ThrowsEarly (s : StreamingService) : Event → Prop
  | .startStreaming o =>
    s.isStreaming = false → o.permitted = true → o.nativeSession.makesSession = true → o.Complete
  | .stopStreaming => True

variable {s : StreamingService} {c : Component} {o : Outcomes}

/-! ## Stopping -/

theorem stop_field (s : StreamingService) (c : Component) :
    (s.stop c).field = Function.update s.field c none := by
  unfold stop
  split
  · next hnone => rw [← hnone, Function.update_eq_self]
  · rfl

theorem linked_stop (h : s.Linked) (c : Component) : (s.stop c).Linked := by
  unfold stop
  split
  · exact h
  · next n hn =>
    rintro c' n'
    change (c', n') ∈ s.live.erase (c, n) ↔ Function.update s.field c none c' = some n'
    rw [Finset.mem_erase, h c' n', Function.update_apply]
    by_cases hc : c' = c
    · subst hc
      rw [if_pos rfl, hn]
      simp [eq_comm]
    · simp [hc]

theorem linked_foldl_stop (h : s.Linked) (cs : List Component) : (cs.foldl stop s).Linked := by
  induction cs generalizing s with
  | nil => exact h
  | cons c cs ih => exact ih (linked_stop h c)

theorem foldl_stop_field (s : StreamingService) (cs : List Component) (c : Component) :
    (cs.foldl stop s).field c = if c ∈ cs then none else s.field c := by
  induction cs generalizing s with
  | nil => rfl
  | cons c' cs ih =>
    rw [List.foldl_cons, ih, stop_field, Function.update_apply]
    by_cases hc : c = c'
    · simp [hc]
    · simp [hc]

theorem foldl_stop_isStreaming (s : StreamingService) (cs : List Component) :
    (cs.foldl stop s).isStreaming = s.isStreaming := by
  induction cs generalizing s with
  | nil => rfl
  | cons c cs ih =>
    rw [List.foldl_cons, ih, stop]
    split <;> rfl

theorem mem_stopOrder (c : Component) : c ∈ stopOrder := by
  cases c <;> decide

theorem AllOrNothing.stopStreaming (h : s.AllOrNothing) : s.stopStreaming.AllOrNothing := by
  unfold StreamingService.stopStreaming
  split_ifs with hidle
  · exact h
  · refine ⟨linked_foldl_stop (s := { s with isStreaming := false }) h.1 stopOrder, fun c => ?_⟩
    rw [foldl_stop_isStreaming, foldl_stop_field, if_pos (mem_stopOrder c)]
    rfl

/-! ## Starting -/

theorem linked_hold (h : s.Linked) (hc : s.field c = none) : (s.hold c).Linked := by
  rintro c' n
  change (c', n) ∈ insert (c, s.made) s.live ↔ Function.update s.field c (some s.made) c' = some n
  rw [Finset.mem_insert, h c' n, Function.update_apply]
  by_cases hc' : c' = c
  · subst hc'
    simp [hc, eq_comm]
  · simp [hc']

theorem hold_field (s : StreamingService) (c c' : Component) :
    (s.hold c).field c' = if c' = c then some s.made else s.field c' :=
  Function.update_apply s.field c (some s.made) c'

theorem linked_foldl_hold (h : s.Linked) {cs : List Component} (hnodup : cs.Nodup)
    (hnone : ∀ c ∈ cs, s.field c = none) : (cs.foldl hold s).Linked := by
  induction cs generalizing s with
  | nil => exact h
  | cons c cs ih =>
    obtain ⟨hc, hnodup⟩ := List.nodup_cons.mp hnodup
    obtain ⟨hfirst, hrest⟩ := List.forall_mem_cons.mp hnone
    refine ih (linked_hold h hfirst) hnodup fun c' hc' => ?_
    rw [hold_field, if_neg (ne_of_mem_of_not_mem hc' hc)]
    exact hrest c' hc'

theorem foldl_hold_field (s : StreamingService) {cs : List Component} (hc : c ∈ cs) :
    (cs.foldl hold s).field c ≠ none := by
  induction cs using List.reverseRecOn with
  | nil => cases hc
  | append_singleton cs c' ih =>
    rw [List.foldl_append, List.foldl_cons, List.foldl_nil, hold_field]
    split_ifs with heq
    · exact Option.some_ne_none _
    · exact ih ((List.mem_append.mp hc).resolve_right (by simpa using heq))

theorem foldl_hold_isStreaming (s : StreamingService) (cs : List Component) :
    (cs.foldl hold s).isStreaming = s.isStreaming := by
  induction cs generalizing s with
  | nil => rfl
  | cons c cs ih => exact ih (s.hold c)

def startOrder (audioEngine : Bool) : List Component :=
  [.nativeSession, .thermalController, .encoder, .cameraController] ++
    (if audioEngine then [.audioEngine] else []) ++
    [.udpTransport, .bluetoothTransport, .usbTransport]

theorem nodup_startOrder (audioEngine : Bool) : (startOrder audioEngine).Nodup := by
  cases audioEngine <;> decide

theorem mem_startOrder (audioEngine : Bool) (h : c ≠ .audioEngine) :
    c ∈ startOrder audioEngine := by
  cases audioEngine <;> revert h <;> cases c <;> decide

theorem setUp_of_complete (s : StreamingService) (h : o.Complete) :
    s.setUp o = ((startOrder o.audioEngine).foldl hold s, true) := by
  unfold setUp
  rw [h.nativeSession, h.thermalController, h.encoder, h.cameraController, h.udpTransport,
    h.bluetoothTransport, h.usbTransport, h.updateNotification]
  cases o.audioEngine <;> rfl

def HasSession (s : StreamingService) : Prop :=
  s.isStreaming = true ∧ s.field .nativeSession ≠ none

theorem HasSession.hold (h : s.HasSession) (c : Component) : (s.hold c).HasSession := by
  refine ⟨h.1, ?_⟩
  change Function.update s.field c (some s.made) _ ≠ none
  rw [Function.update_apply]
  split_ifs
  · exact Option.some_ne_none s.made
  · exact h.2

/-- A step of the `try` that keeps the native session, and ends well only if it is to. -/
def Keeps (r : StreamingService × Bool) (well : Prop) : Prop :=
  r.1.HasSession ∧ (r.2 = true → well)

theorem Keeps.andThen {r : StreamingService × Bool}
    {next : StreamingService → StreamingService × Bool} {p q : Prop} (h : Keeps r p)
    (hnext : ∀ s, HasSession s → Keeps (next s) q) :
    Keeps (StreamingService.andThen r next) (p ∧ q) := by
  unfold StreamingService.andThen
  split_ifs with hr
  · exact ⟨(hnext r.1 h.1).1, fun hq => ⟨h.2 hr, (hnext r.1 h.1).2 hq⟩⟩
  · exact ⟨h.1, fun hr' => absurd hr' hr⟩

theorem HasSession.create (h : s.HasSession) (c : Component) (outcome : Outcome) :
    Keeps (s.create c outcome) (outcome = .succeeds) := by
  cases outcome with
  | succeeds => exact ⟨h.hold c, fun _ => rfl⟩
  | throws acquired => exact ⟨h, fun hthrows => by cases hthrows⟩

theorem HasSession.construct (h : s.HasSession) (c : Component) (constructed : Bool) :
    Keeps (s.construct c constructed) (constructed = true) := by
  cases constructed with
  | true => exact ⟨h.hold c, fun _ => rfl⟩
  | false => exact ⟨h, fun hthrows => by cases hthrows⟩

theorem HasSession.startEncoder (h : s.HasSession) (started : Bool) :
    Keeps (s.startEncoder started) (started = true) := by
  cases started with
  | true => exact ⟨h.hold .encoder, fun _ => rfl⟩
  | false => exact ⟨h, fun hthrows => by cases hthrows⟩

theorem HasSession.startAudio (h : s.HasSession) (started : Bool) :
    (s.startAudio started).HasSession := by
  cases started with
  | true => exact h.hold .audioEngine
  | false => exact h

/-- With a native session the `try` comes to its end only if everything else starts too. -/
theorem keeps_setUp (hs : s.isStreaming = true) (ho : o.nativeSession.makesSession = true) :
    Keeps (s.setUp o) o.Complete := by
  have hheld : (s.hold .nativeSession).HasSession := by
    refine ⟨hs, ?_⟩
    rw [hold_field, if_pos rfl]
    exact Option.some_ne_none s.made
  have hnative : Keeps (s.createNativeSession o.nativeSession) (o.nativeSession = .handle) := by
    cases hnative : o.nativeSession with
    | handle => exact ⟨hheld, fun _ => rfl⟩
    | unlinked => exact ⟨hheld, fun hthrows => by cases hthrows⟩
    | zero => simp [hnative, NativeOutcome.makesSession] at ho
    | throws => simp [hnative, NativeOutcome.makesSession] at ho
  have hnotify (s : StreamingService) (h : s.HasSession) :
      Keeps (s, o.updateNotification) (o.updateNotification = true) := ⟨h, fun hn => hn⟩
  have hsetUp := hnative.andThen fun s h =>
    (h.create .thermalController o.thermalController).andThen fun s h =>
    (h.startEncoder o.encoder).andThen fun s h =>
    (h.create .cameraController o.cameraController).andThen fun s h =>
    ((h.startAudio o.audioEngine).create .udpTransport o.udpTransport).andThen fun s h =>
    (h.construct .bluetoothTransport o.bluetoothTransport).andThen fun s h =>
    (h.construct .usbTransport o.usbTransport).andThen hnotify
  refine ⟨hsetUp.1, fun hdone => ?_⟩
  obtain ⟨hnative, hthermal, hencoder, hcamera, hudp, hbluetooth, husb, hnotification⟩ :=
    hsetUp.2 hdone
  exact ⟨hnative, hthermal, hencoder, hcamera, hudp, hbluetooth, husb, hnotification⟩

theorem setUp_of_no_session (hnone : s.field .nativeSession = none)
    (ho : o.nativeSession.makesSession ≠ true) : s.setUp o = (s, false) := by
  unfold setUp
  cases hnative : o.nativeSession with
  | handle => exact absurd (by rw [hnative]; rfl) ho
  | unlinked => exact absurd (by rw [hnative]; rfl) ho
  | zero =>
    have hupdate : Function.update s.field .nativeSession none = s.field := by
      rw [← hnone, Function.update_eq_self]
    change ({ s with field := Function.update s.field .nativeSession none }, false) = (s, false)
    rw [hupdate]
  | throws => rfl

/-! ## Runs -/

theorem AllOrNothing.startStreaming_iff (h : s.AllOrNothing) (hidle : s.isStreaming = false)
    (hpermitted : o.permitted = true) :
    (s.startStreaming o).1.AllOrNothing ↔
      (o.nativeSession.makesSession = true → o.Complete) := by
  have hnone : ∀ c, s.field c = none := fun c => by simpa [hidle] using h.2 c
  rw [StreamingService.startStreaming, if_neg (by simp [hidle]), if_neg (by simp [hpermitted])]
  by_cases ho : o.nativeSession.makesSession = true
  · have hkeeps := keeps_setUp (s := { s with isStreaming := true }) rfl ho
    by_cases hcomplete : o.Complete
    · refine iff_of_true ?_ fun _ => hcomplete
      rw [setUp_of_complete _ hcomplete]
      refine ⟨linked_foldl_hold (s := { s with isStreaming := true }) h.1 (nodup_startOrder _)
        (fun c _ => hnone c), fun c => ?_⟩
      rw [foldl_hold_isStreaming, if_pos rfl]
      exact fun hc => foldl_hold_field _ (mem_startOrder _ hc)
    · -- the exception leaves the native session behind
      refine iff_of_false ?_ fun hthrows => hcomplete (hthrows ho)
      generalize { s with isStreaming := true }.setUp o = r at hkeeps ⊢
      obtain ⟨s', done⟩ := r
      cases done with
      | true => exact absurd (hkeeps.2 rfl) hcomplete
      | false => exact fun hnothing => hkeeps.1.2 (hnothing.2 .nativeSession)
  · refine iff_of_true ?_ fun hmakes => absurd hmakes ho
    rw [setUp_of_no_session (s := { s with isStreaming := true }) (hnone _) ho]
    exact ⟨h.1, hnone⟩

theorem AllOrNothing.step_iff (h : s.AllOrNothing) (e : Event) :
    (s.step e).1.AllOrNothing ↔ s.ThrowsEarly e := by
  cases e with
  | startStreaming o =>
    rw [step, ThrowsEarly]
    by_cases hidle : s.isStreaming = false
    · by_cases hpermitted : o.permitted = true
      · rw [imp_iff_right hidle, imp_iff_right hpermitted]
        exact h.startStreaming_iff hidle hpermitted
      · refine iff_of_true ?_ fun _ hp => absurd hp hpermitted
        rw [StreamingService.startStreaming, if_neg (by simp [hidle]),
          if_pos (by simpa using hpermitted)]
        exact h
    · refine iff_of_true ?_ fun hi => absurd hi hidle
      rw [StreamingService.startStreaming, if_pos (by simpa using hidle)]
      exact h
  | stopStreaming => exact iff_of_true h.stopStreaming trivial

/-- All through a run of starts and stops there is nothing without a stream, and with one a live
instance behind each field, exactly when no start throws after it has made a native session. -/
theorem allOrNothing_iff_throwsEarly (events : List Event) :
    Machine.Guarded step ThrowsEarly {} events ↔
      ∀ pre, pre <+: events → (Machine.exec step {} pre).1.AllOrNothing := by
  refine Machine.guarded_iff_forall_reached (I := AllOrNothing) ?_ ?_ ?_ ?_ _
  · exact fun s e h he => (h.step_iff e).mpr he
  · exact fun s h => h
  · exact fun s e h he => (h.step_iff e).mp he
  · exact ⟨fun c n => by simp, fun c => rfl⟩

/-- An encoder that fails to start leaves the native session and the thermal controller behind,
and after another try there are two of each. -/
theorem not_allOrNothing_encoder :
    let failed := (Machine.exec step {} [.startStreaming { encoder := false }]).1
    let started := (Machine.exec step {} [.startStreaming { encoder := false },
      .startStreaming {}]).1
    ¬ failed.AllOrNothing ∧ failed.field .nativeSession = some 0 ∧
      (.nativeSession, 0) ∈ started.live ∧ (.nativeSession, 3) ∈ started.live := by
  refine ⟨fun h => absurd (h.2 .nativeSession) (by decide), by decide, by decide, by decide⟩

end StreamingService

end VeyraCam
