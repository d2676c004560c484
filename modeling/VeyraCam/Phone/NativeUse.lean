import Mathlib.Data.Finset.Erase
import Mathlib.Data.Finset.Insert
import Mathlib.Logic.Function.Basic
import VeyraCam.Library.Machine

/-! # The use of the native session

The threads of the encoder, of the audio engine and of the control server call into
the native session through `nativeHandle`, which `stopStreaming` destroys when it
has joined them. A thread that it does not join may still be in such a call.
-/

namespace VeyraCam

namespace NativeUse

inductive Caller where
  | encoder
  | audioEngine
  | udpTransport
  deriving DecidableEq

inductive Stage where
  | idle
  /-- In a callback, or in its loop, past a check of `isRunning`. -/
  | running
  /-- It has read the handle, and has not returned from the native call. -/
  | calling (session : ℕ)
  | ended
  deriving DecidableEq

/-- A thread, with the component object it runs in. -/
structure Worker where
  caller : Caller
  owner : ℕ
  stage : Stage := .idle
  deriving DecidableEq

/-- How `startStreaming` ends. It throws before there is a session, or after, with an encoder that
was made and started or not, and with the other threads started or not. -/
inductive StartOutcome where
  | complete (audio : Bool)
  | noSession (zero : Bool)
  | throws (encoder : Option Bool) (audio udp : Bool)
  deriving DecidableEq

inductive StopStep where
  /-- `isRunning = false` at the start of a component's `stop`. -/
  | clear (c : Caller)
  /-- The `join` at its end, and the field set to null. -/
  | join (c : Caller)
  | destroy
  /-- `nativeHandle = 0L`. -/
  | forget
  deriving DecidableEq

inductive Event where
  | startStreaming (outcome : StartOutcome)
  | switchCamera (started : Bool)
  | stopStreaming
  /-- The next part of `stopStreaming`; a `join` with a time limit may be over before the thread. -/
  | advance (timedOut : Bool)
  /-- A thread enters its callback or the body of its loop. -/
  | enter (thread : ℕ)
  | readHandle (thread : ℕ)
  | callReturns (thread : ℕ)
  | leave (thread : ℕ)
  | exit (thread : ℕ)
  deriving DecidableEq

end NativeUse

open NativeUse

/-- The parts of `VeyraStreamingService` that the native session is used by. Sessions, component
objects and threads are numbered. -/
structure NativeUse where
  isStreaming : Bool := false
  nativeHandle : Option ℕ := none
  sessions : ℕ := 0
  destroyed : Finset ℕ := ∅
  /-- `encoder`, `audioEngine` and `udpTransport`. -/
  object : Caller → Option ℕ := fun _ => none
  objects : ℕ := 0
  /-- The objects whose `isRunning` is set. -/
  running : Finset ℕ := ∅
  /-- The field of an object for its thread. -/
  thread : ℕ → Option ℕ := fun _ => none
  workers : List Worker := []
  /-- What is left of `stopStreaming`. -/
  stopping : List StopStep := []

namespace NativeUse

def make (s : NativeUse) (c : Caller) : NativeUse :=
  { s with object := Function.update s.object c (some s.objects), objects := s.objects + 1 }

def launch (s : NativeUse) (c : Caller) (owner : ℕ) : NativeUse :=
  { s with
    running := insert owner s.running
    thread := Function.update s.thread owner (some s.workers.length)
    workers := s.workers ++ [{ caller := c, owner }] }

def spawn (s : NativeUse) (c : Caller) : NativeUse := (s.make c).launch c s.objects

def createSession (s : NativeUse) : NativeUse :=
  { s with nativeHandle := some s.sessions, sessions := s.sessions + 1 }

def startStreaming (s : NativeUse) : StartOutcome → NativeUse
  | .complete audio =>
    let s := s.createSession.spawn .encoder
    let s := if audio then s.spawn .audioEngine else s
    { s.spawn .udpTransport with isStreaming := true }
  | .noSession zero => if zero then { s with nativeHandle := none } else s
  | .throws encoder audio udp =>
    let s := s.createSession
    let s := match encoder with
      | none => s
      | some false => s.make .encoder
      | some true => s.spawn .encoder
    let s := if audio then s.spawn .audioEngine else s
    if udp then s.spawn .udpTransport else s

/-- `switchCamera`, which starts the encoder again. A start that throws clears its thread. -/
def switchCamera (s : NativeUse) (started : Bool) : NativeUse :=
  match s.object .encoder with
  | none => s
  | some owner =>
    if started then s.launch .encoder owner
    else { s with thread := Function.update s.thread owner none }

/-- `stopStreaming`, from when `isStreaming` is cleared. -/
def stopSteps : List StopStep :=
  [.clear .encoder, .join .encoder, .clear .audioEngine, .join .audioEngine, .clear .udpTransport,
    .join .udpTransport, .destroy, .forget]

def hasEnded (s : NativeUse) (thread : Option ℕ) : Bool :=
  (thread.bind (s.workers[·]?)).all (·.stage = .ended)

/-- The rest of a component's `stop`; the `join` of the encoder has no time limit. -/
def join (s : NativeUse) (c : Caller) (timedOut : Bool) (rest : List StopStep) : NativeUse :=
  match s.object c with
  | none => { s with stopping := rest }
  | some owner =>
    if s.hasEnded (s.thread owner) || timedOut && c ≠ .encoder then
      { s with
        object := Function.update s.object c none
        stopping := rest }
    else s

/-- The next part of `stopStreaming`. -/
def advance (s : NativeUse) (timedOut : Bool) : NativeUse :=
  match s.stopping with
  | [] => s
  | .clear c :: rest =>
    { s with
      running := (s.object c).elim s.running s.running.erase
      stopping := rest }
  | .join c :: rest => s.join c timedOut rest
  | .destroy :: rest =>
    { s with
      destroyed := s.nativeHandle.elim s.destroyed (insert · s.destroyed)
      stopping := rest }
  | .forget :: rest => { s with nativeHandle := none, stopping := rest }

def move (s : NativeUse) (thread : ℕ) (next : Worker → Option Stage) : NativeUse :=
  match s.workers[thread]? with
  | none => s
  | some w =>
    match next w with
    | none => s
    | some stage => { s with workers := s.workers.set thread { w with stage } }

/-- The encoder and the audio engine check `isRunning`; the control server may be anywhere in
`handleConnection`. -/
def enter (s : NativeUse) (w : Worker) : Option Stage :=
  if w.stage = .idle ∧ (w.caller = .udpTransport ∨ w.owner ∈ s.running) then some .running else none

def readHandle (s : NativeUse) (w : Worker) : Option Stage :=
  if w.stage = .running then s.nativeHandle.map .calling else none

/-- A callback of the encoder makes one call. -/
def returns (w : Worker) : Option Stage :=
  match w.stage with
  | .calling _ => some (if w.caller = .encoder then .idle else .running)
  | _ => none

def leave (w : Worker) : Option Stage := if w.stage = .running then some .idle else none

/-- The thread of an encoder ends when its `stop` has told it to; the others also by an
exception. -/
def exit (s : NativeUse) (thread : ℕ) (w : Worker) : Option Stage :=
  if w.stage = .idle ∧
      (w.caller = .encoder → w.owner ∉ s.running ∧ s.thread w.owner = some thread) then
    some .ended
  else none

/-- One event. The calls of the service are made by one thread, one after the other. -/
def step (s : NativeUse) : Event → NativeUse × List Empty
  | .startStreaming outcome =>
    (if s.stopping = [] ∧ s.isStreaming = false then s.startStreaming outcome else s, [])
  | .switchCamera started => (if s.stopping = [] then s.switchCamera started else s, [])
  | .stopStreaming =>
    (if s.stopping = [] ∧ s.isStreaming = true then
      { s with isStreaming := false, stopping := stopSteps }
    else s, [])
  | .advance timedOut => (s.advance timedOut, [])
  | .enter thread => (s.move thread s.enter, [])
  | .readHandle thread => (s.move thread s.readHandle, [])
  | .callReturns thread => (s.move thread returns, [])
  | .leave thread => (s.move thread leave, [])
  | .exit thread => (s.move thread (s.exit thread), [])

/-- No thread is left to itself: a start that throws has started none, the camera is not switched
while there is an encoder object, and no `join` is given up. -/
def Attended (s : NativeUse) : Event → Prop
  | .startStreaming (.throws encoder audio udp) =>
    encoder ≠ some true ∧ audio = false ∧ udp = false
  | .switchCamera _ => s.object .encoder = none
  | .advance timedOut => timedOut = false
  | _ => True

instance (s : NativeUse) : DecidablePred s.Attended
  | .startStreaming (.throws _ _ _) => inferInstanceAs (Decidable (_ ∧ _ ∧ _))
  | .switchCamera _ => inferInstanceAs (Decidable (_ = _))
  | .advance _ => inferInstanceAs (Decidable (_ = _))
  | .startStreaming (.complete _) | .startStreaming (.noSession _) | .stopStreaming | .enter _
  | .readHandle _ | .callReturns _ | .leave _ | .exit _ => inferInstanceAs (Decidable True)

def Dangling (s : NativeUse) : Prop :=
  ∃ session ∈ s.destroyed, ∃ w ∈ s.workers, w.stage = .calling session

instance : DecidablePred Dangling := fun s =>
  inferInstanceAs (Decidable (∃ session ∈ s.destroyed, ∃ w ∈ s.workers, _))

variable {s : NativeUse} {c : Caller}

def Quiet (s : NativeUse) (c : Caller) : Prop := ∀ w ∈ s.workers, w.caller = c → w.stage = .ended

/-- Each thread that has not ended is the one of the object in the field of the service, unless
`stopStreaming` has joined it, and the session is destroyed after the last of them. -/
structure Sound (s : NativeUse) : Prop where
  attended : ∀ i w, s.workers[i]? = some w → w.stage ≠ .ended →
    s.object w.caller = some w.owner ∧ s.thread w.owner = some i
  quiet : s.isStreaming = false → ∀ c, .join c ∉ s.stopping → s.Quiet c
  calling : ∀ w ∈ s.workers, ∀ session, w.stage = .calling session → session ∉ s.destroyed
  handle : ∀ session, s.nativeHandle = some session → session < s.sessions ∧
    (session ∈ s.destroyed → s.isStreaming = false ∧ s.stopping = [.forget])
  destroyed : ∀ session ∈ s.destroyed, session < s.sessions
  owners : ∀ c owner, s.object c = some owner → owner < s.objects
  stopping : s.stopping ≠ [] → s.isStreaming = false
  suffix : s.stopping <:+ stopSteps

theorem Sound.not_dangling (h : s.Sound) : ¬ s.Dangling := by
  rintro ⟨session, hdestroyed, w, hw, hstage⟩
  exact h.calling w hw session hstage hdestroyed

/-- Between the calls of the service, while it does not stream, no thread is left. -/
theorem Sound.ended (h : s.Sound) (hstopping : s.stopping = []) (hs : s.isStreaming = false) :
    ∀ w ∈ s.workers, w.stage = .ended := fun w hw =>
  h.quiet hs w.caller (by rw [hstopping]; exact List.not_mem_nil) w hw rfl

theorem Sound.move (h : s.Sound) {thread : ℕ} {next : Worker → Option Stage}
    (halive : ∀ w stage, next w = some stage → w.stage ≠ .ended)
    (hcalling : ∀ w session, next w = some (.calling session) → s.nativeHandle = some session) :
    (s.move thread next).Sound := by
  unfold NativeUse.move
  cases hw : s.workers[thread]? with
  | none => exact h
  | some w =>
    cases hnext : next w with
    | none =>
      simp only [hnext]
      exact h
    | some stage =>
      simp only [hnext]
      have hwalive := halive w stage hnext
      have hmem := List.mem_of_getElem? hw
      have hquiet : ∀ {c}, s.Quiet c → c ≠ w.caller := fun hq he =>
        hwalive (hq w hmem he.symm)
      have hset {v : Worker} (hv : v ∈ s.workers.set thread { w with stage }) :
          v ∈ s.workers ∨ v = { w with stage } := List.mem_or_eq_of_mem_set hv
      refine ⟨fun i v hv hended => ?_, fun hs c hc v hv hcaller => ?_, fun v hv session hcall => ?_,
        h.handle, h.destroyed, h.owners, h.stopping, h.suffix⟩
      · rw [List.getElem?_set] at hv
        split_ifs at hv with hi hlt
        · obtain rfl := Option.some.inj hv
          subst hi
          exact h.attended thread w hw hwalive
        · exact h.attended i v hv hended
      · have hq := h.quiet hs c hc
        rcases hset hv with hv | rfl
        · exact hq v hv hcaller
        · exact absurd hcaller.symm (hquiet hq)
      · rcases hset hv with hv | rfl
        · exact h.calling v hv session hcall
        · obtain rfl : stage = .calling session := hcall
          intro hdestroyed
          obtain ⟨hs, hstopping⟩ := (h.handle session (hcalling w session hnext)).2 hdestroyed
          have hnot : StopStep.join w.caller ∉ s.stopping := by rw [hstopping]; simp
          exact hquiet (h.quiet hs w.caller hnot) rfl

theorem Sound.quiet_of_hasEnded (h : s.Sound) {owner : ℕ} (hobject : s.object c = some owner)
    (hended : s.hasEnded (s.thread owner) = true) : s.Quiet c := by
  intro w hw hcaller
  by_contra halive
  obtain ⟨i, hi⟩ := List.getElem?_of_mem hw
  obtain ⟨hfield, hthread⟩ := h.attended i w hi halive
  rw [hcaller, hobject] at hfield
  rw [Option.some.inj hfield, hasEnded, hthread] at hended
  simp only [Option.bind_some, hi, Option.all_some, decide_eq_true_eq] at hended
  exact halive hended

theorem Sound.quiet_of_none (h : s.Sound) (hobject : s.object c = none) : s.Quiet c := by
  intro w hw hcaller
  by_contra halive
  obtain ⟨i, hi⟩ := List.getElem?_of_mem hw
  have hfield := (h.attended i w hi halive).1
  rw [hcaller, hobject] at hfield
  cases hfield

theorem mem_stopSteps (c : Caller) : .join c ∈ stopSteps := by
  cases c <;> decide

theorem rest_of_destroy {rest : List StopStep} (h : .destroy :: rest <:+ stopSteps) :
    rest = [.forget] := by
  simpa [stopSteps, List.suffix_cons_iff] using h

theorem rest_of_forget {rest : List StopStep} (h : .forget :: rest <:+ stopSteps) : rest = [] := by
  simpa [stopSteps, List.suffix_cons_iff] using h

theorem Sound.handle_of_cons (h : s.Sound) {step : StopStep} {rest : List StopStep}
    (hstopping : s.stopping = step :: rest) (hne : step ≠ .forget) {session : ℕ}
    (hsession : s.nativeHandle = some session) : session < s.sessions ∧ session ∉ s.destroyed := by
  obtain ⟨hlt, hdestroyed⟩ := h.handle session hsession
  refine ⟨hlt, fun hmem => hne ?_⟩
  exact (List.cons.inj (hstopping.symm.trans (hdestroyed hmem).2)).1

theorem Sound.of_cons (h : s.Sound) {step : StopStep} {rest : List StopStep}
    (hstopping : s.stopping = step :: rest) : s.isStreaming = false ∧ rest <:+ stopSteps := by
  refine ⟨h.stopping ?_, (List.suffix_cons step rest).trans (hstopping ▸ h.suffix)⟩
  rw [hstopping]
  exact List.cons_ne_nil _ _

theorem Sound.quiet_of_cons (h : s.Sound) {step : StopStep} {rest : List StopStep}
    (hstopping : s.stopping = step :: rest) (hne : step ≠ .join c) (hc : .join c ∉ rest) :
    s.Quiet c := by
  refine h.quiet (h.of_cons hstopping).1 c ?_
  rw [hstopping, List.mem_cons, not_or]
  exact ⟨Ne.symm hne, hc⟩

/-- A step is behind, after which more components may be quiet. -/
theorem Sound.proceed (h : s.Sound) {step : StopStep} {rest : List StopStep}
    (hstopping : s.stopping = step :: rest) (hne : step ≠ .forget)
    (hquiet : ∀ c, .join c ∉ rest → s.Quiet c) (running : Finset ℕ) :
    ({ s with running, stopping := rest } : NativeUse).Sound := by
  obtain ⟨hs, hsuffix⟩ := h.of_cons hstopping
  refine ⟨h.attended, fun _ => hquiet, h.calling, fun session hsession => ?_, h.destroyed,
    h.owners, fun _ => hs, hsuffix⟩
  obtain ⟨hlt, hnot⟩ := h.handle_of_cons hstopping hne hsession
  exact ⟨hlt, fun hmem => absurd hmem hnot⟩

theorem Sound.release (h : s.Sound) (hc : s.Quiet c) :
    ({ s with object := Function.update s.object c none } : NativeUse).Sound := by
  refine ⟨fun i w hw halive => ?_, h.quiet, h.calling, h.handle, h.destroyed,
    fun c' owner howner => ?_, h.stopping, h.suffix⟩
  · have hne : w.caller ≠ c := fun he => halive (hc w (List.mem_of_getElem? hw) he)
    dsimp only
    rw [Function.update_of_ne hne]
    exact h.attended i w hw halive
  · dsimp only at howner
    by_cases he : c' = c
    · subst he
      rw [Function.update_self] at howner
      cases howner
    · rw [Function.update_of_ne he] at howner
      exact h.owners c' owner howner

theorem Sound.join (h : s.Sound) {rest : List StopStep} (hstopping : s.stopping = .join c :: rest) :
    (s.join c false rest).Sound := by
  have hjoined (hc : s.Quiet c) (c' : Caller) (hc' : .join c' ∉ rest) : s.Quiet c' := by
    by_cases he : c = c'
    · exact he ▸ hc
    · exact h.quiet_of_cons hstopping (by simpa using he) hc'
  unfold NativeUse.join
  cases hobject : s.object c with
  | none =>
    exact h.proceed hstopping (by simp) (hjoined (h.quiet_of_none hobject)) s.running
  | some owner =>
    simp only [Bool.false_and, Bool.or_false]
    split_ifs with hended
    · have hc := h.quiet_of_hasEnded hobject hended
      have hnext := h.proceed hstopping (by simp) (hjoined hc) s.running
      exact hnext.release hc
    · exact h

theorem Sound.destroy (h : s.Sound) {rest : List StopStep}
    (hstopping : s.stopping = .destroy :: rest) :
    ({ s with
      destroyed := s.nativeHandle.elim s.destroyed (insert · s.destroyed)
      stopping := rest } : NativeUse).Sound := by
  obtain ⟨hs, hsuffix⟩ := h.of_cons hstopping
  obtain rfl := rest_of_destroy (hstopping ▸ h.suffix)
  have hquiet (c : Caller) : s.Quiet c := h.quiet_of_cons hstopping (by simp) (by simp)
  refine ⟨h.attended, fun _ c _ => hquiet c, fun w hw session hstage => ?_,
    fun session hsession => ⟨(h.handle session hsession).1, fun _ => ⟨hs, rfl⟩⟩,
    fun session hmem => ?_, h.owners, fun _ => hs, hsuffix⟩
  · rw [hquiet w.caller w hw rfl] at hstage
    cases hstage
  · cases hhandle : s.nativeHandle with
    | none => exact h.destroyed session (by simpa [hhandle] using hmem)
    | some session' =>
      rw [hhandle, Option.elim_some, Finset.mem_insert] at hmem
      rcases hmem with rfl | hmem
      · exact (h.handle session hhandle).1
      · exact h.destroyed session hmem

theorem Sound.forget (h : s.Sound) {rest : List StopStep}
    (hstopping : s.stopping = .forget :: rest) :
    ({ s with nativeHandle := none, stopping := rest } : NativeUse).Sound := by
  obtain ⟨hs, hsuffix⟩ := h.of_cons hstopping
  obtain rfl := rest_of_forget (hstopping ▸ h.suffix)
  exact ⟨h.attended, fun _ c hc => h.quiet_of_cons hstopping (by simp) hc, h.calling,
    fun session hsession => (by cases hsession), h.destroyed, h.owners, fun _ => hs, hsuffix⟩

theorem Sound.advance (h : s.Sound) : (s.advance false).Sound := by
  unfold NativeUse.advance
  split
  · exact h
  · rename_i c rest hstopping
    exact h.proceed hstopping (by simp)
      (fun c' hc' => h.quiet_of_cons hstopping (by simp) hc') _
  · rename_i c rest hstopping
    exact h.join hstopping
  · rename_i rest hstopping
    exact h.destroy hstopping
  · rename_i rest hstopping
    exact h.forget hstopping

/-! ## Starting -/

/-- While nothing is being stopped: the threads and the session as in a sound state. -/
structure Linked (s : NativeUse) : Prop where
  attended : ∀ i w, s.workers[i]? = some w → w.stage ≠ .ended →
    s.object w.caller = some w.owner ∧ s.thread w.owner = some i
  calling : ∀ w ∈ s.workers, ∀ session, w.stage = .calling session → session ∉ s.destroyed
  handle : ∀ session, s.nativeHandle = some session →
    session < s.sessions ∧ session ∉ s.destroyed
  destroyed : ∀ session ∈ s.destroyed, session < s.sessions
  owners : ∀ c owner, s.object c = some owner → owner < s.objects

theorem Sound.linked (h : s.Sound) (hstopping : s.stopping = []) : s.Linked where
  attended := h.attended
  calling := h.calling
  handle session hsession := by
    obtain ⟨hlt, hdestroyed⟩ := h.handle session hsession
    refine ⟨hlt, fun hmem => ?_⟩
    have hforget := (hdestroyed hmem).2
    rw [hstopping] at hforget
    cases hforget
  destroyed := h.destroyed
  owners := h.owners

theorem Linked.sound (h : s.Linked) (hstopping : s.stopping = [])
    (hquiet : s.isStreaming = false → ∀ c, s.Quiet c) : s.Sound where
  attended := h.attended
  quiet hs c _ := hquiet hs c
  calling := h.calling
  handle session hsession :=
    let ⟨hlt, hnot⟩ := h.handle session hsession
    ⟨hlt, fun hmem => absurd hmem hnot⟩
  destroyed := h.destroyed
  owners := h.owners
  stopping hne := absurd hstopping hne
  suffix := by rw [hstopping]; exact List.nil_suffix

theorem Linked.createSession (h : s.Linked) : s.createSession.Linked := by
  refine ⟨h.attended, h.calling, fun session hsession => ?_, fun session hmem => ?_, h.owners⟩
  · obtain rfl := Option.some.inj hsession
    exact ⟨Nat.lt_succ_self _, fun hmem => absurd (h.destroyed _ hmem) (lt_irrefl _)⟩
  · exact (h.destroyed session hmem).trans (Nat.lt_succ_self _)

theorem Linked.make (h : s.Linked) (hc : s.Quiet c) : (s.make c).Linked := by
  refine ⟨fun i w hw halive => ?_, h.calling, h.handle, h.destroyed, fun c' owner howner => ?_⟩
  · have hne : w.caller ≠ c := fun he => halive (hc w (List.mem_of_getElem? hw) he)
    simp only [NativeUse.make, Function.update_of_ne hne]
    exact h.attended i w hw halive
  · simp only [NativeUse.make] at howner ⊢
    by_cases he : c' = c
    · subst he
      rw [Function.update_self] at howner
      obtain rfl := Option.some.inj howner
      exact Nat.lt_succ_self _
    · rw [Function.update_of_ne he] at howner
      exact (h.owners c' owner howner).trans (Nat.lt_succ_self _)

theorem Linked.spawn (h : s.Linked) (hc : s.Quiet c) : (s.spawn c).Linked := by
  have hmake := h.make hc
  refine ⟨fun i w hw halive => ?_, fun w hw session hstage => ?_, h.handle, h.destroyed,
    hmake.owners⟩
  · simp only [NativeUse.spawn, launch, NativeUse.make] at hw ⊢
    rcases Nat.lt_or_ge i s.workers.length with hi | hi
    · rw [List.getElem?_append_left hi] at hw
      obtain ⟨hobject, hthread⟩ := hmake.attended i w hw halive
      have hne : w.owner ≠ s.objects := (h.owners _ _ (h.attended i w hw halive).1).ne
      rw [Function.update_of_ne hne]
      exact ⟨hobject, hthread⟩
    · rw [List.getElem?_append_right hi] at hw
      cases hindex : i - s.workers.length with
      | zero =>
        rw [hindex] at hw
        obtain rfl := Option.some.inj hw
        obtain rfl : i = s.workers.length := by omega
        exact ⟨Function.update_self .., Function.update_self ..⟩
      | succ n =>
        rw [hindex] at hw
        cases hw
  · rcases List.mem_append.mp hw with hw | hw
    · exact h.calling w hw session hstage
    · obtain rfl := List.mem_singleton.mp hw
      cases hstage

theorem Quiet.spawn {c' : Caller} (h : s.Quiet c) (hne : c' ≠ c) : (s.spawn c').Quiet c := by
  intro w hw hcaller
  rcases List.mem_append.mp hw with hw | hw
  · exact h w hw hcaller
  · obtain rfl := List.mem_singleton.mp hw
    exact absurd hcaller hne

theorem Sound.startStreaming (h : s.Sound) (hstopping : s.stopping = [])
    (hs : s.isStreaming = false) {outcome : StartOutcome}
    (hattended : s.Attended (.startStreaming outcome)) : (s.startStreaming outcome).Sound := by
  have hlinked := h.linked hstopping
  have hquiet : ∀ c, s.Quiet c := fun c => h.quiet hs c (by rw [hstopping]; exact List.not_mem_nil)
  cases outcome with
  | complete audio =>
    have hencoder : (s.createSession.spawn .encoder).Linked :=
      hlinked.createSession.spawn (hquiet .encoder)
    have hrest {c : Caller} (hne : .encoder ≠ c) : (s.createSession.spawn .encoder).Quiet c :=
      Quiet.spawn (s := s.createSession) (hquiet c) hne
    cases audio with
    | false =>
      have hudp := hencoder.spawn (hrest (c := .udpTransport) (by decide))
      exact Linked.sound ⟨hudp.attended, hudp.calling, hudp.handle, hudp.destroyed, hudp.owners⟩
        hstopping fun hs => by cases hs
    | true =>
      have haudio := hencoder.spawn (hrest (c := .audioEngine) (by decide))
      have hudp := haudio.spawn (Quiet.spawn (hrest (c := .udpTransport) (by decide)) (by decide))
      exact Linked.sound ⟨hudp.attended, hudp.calling, hudp.handle, hudp.destroyed, hudp.owners⟩
        hstopping fun hs => by cases hs
  | noSession zero =>
    cases zero with
    | false => exact h
    | true =>
      exact Linked.sound ⟨h.attended, h.calling, fun session hsession => (by cases hsession),
        h.destroyed, h.owners⟩ hstopping fun _ => hquiet
  | throws encoder audio udp =>
    obtain ⟨hencoder, rfl, rfl⟩ := hattended
    cases encoder with
    | none => exact hlinked.createSession.sound hstopping fun _ => hquiet
    | some started =>
      cases started with
      | false =>
        exact (hlinked.createSession.make (hquiet .encoder)).sound hstopping fun _ => hquiet
      | true => exact absurd rfl hencoder

/-! ## The threads -/

theorem Sound.enter (h : s.Sound) (thread : ℕ) : (s.move thread s.enter).Sound := by
  refine h.move (fun w stage hnext halive => ?_) fun w session hnext => ?_
  · simp [NativeUse.enter, halive] at hnext
  · unfold NativeUse.enter at hnext
    split_ifs at hnext
    cases hnext

theorem Sound.readHandle (h : s.Sound) (thread : ℕ) : (s.move thread s.readHandle).Sound := by
  refine h.move (fun w stage hnext halive => ?_) fun w session hnext => ?_
  · simp [NativeUse.readHandle, halive] at hnext
  · unfold NativeUse.readHandle at hnext
    split_ifs at hnext
    obtain ⟨session', hsession, he⟩ := Option.map_eq_some_iff.mp hnext
    obtain rfl := Stage.calling.inj he
    exact hsession

theorem Sound.returns (h : s.Sound) (thread : ℕ) : (s.move thread returns).Sound := by
  refine h.move (fun w stage hnext halive => ?_) fun w session hnext => ?_
  · simp [NativeUse.returns, halive] at hnext
  · unfold NativeUse.returns at hnext
    split at hnext
    · split_ifs at hnext <;> cases hnext
    · cases hnext

theorem Sound.leave (h : s.Sound) (thread : ℕ) : (s.move thread leave).Sound := by
  refine h.move (fun w stage hnext halive => ?_) fun w session hnext => ?_
  · simp [NativeUse.leave, halive] at hnext
  · unfold NativeUse.leave at hnext
    split_ifs at hnext
    cases hnext

theorem Sound.exit (h : s.Sound) (thread : ℕ) : (s.move thread (s.exit thread)).Sound := by
  refine h.move (fun w stage hnext halive => ?_) fun w session hnext => ?_
  · simp [NativeUse.exit, halive] at hnext
  · unfold NativeUse.exit at hnext
    split_ifs at hnext
    cases hnext

theorem Sound.stopStreaming (h : s.Sound) (hstopping : s.stopping = []) :
    ({ s with isStreaming := false, stopping := stopSteps } : NativeUse).Sound := by
  refine ⟨h.attended, fun _ c hc => absurd (mem_stopSteps c) hc, h.calling,
    fun session hsession => ?_, h.destroyed, h.owners, fun _ => rfl, List.suffix_refl _⟩
  obtain ⟨hlt, hnot⟩ := (h.linked hstopping).handle session hsession
  exact ⟨hlt, fun hmem => absurd hmem hnot⟩

theorem Sound.step (h : s.Sound) {e : Event} (he : s.Attended e) : (s.step e).1.Sound := by
  cases e with
  | startStreaming outcome =>
    simp only [NativeUse.step]
    split_ifs with hidle
    · exact h.startStreaming hidle.1 hidle.2 he
    · exact h
  | switchCamera started =>
    have hnone : s.object .encoder = none := he
    simp only [NativeUse.step, NativeUse.switchCamera, hnone, ite_self]
    exact h
  | stopStreaming =>
    simp only [NativeUse.step]
    split_ifs with hidle
    · exact h.stopStreaming hidle.1
    · exact h
  | advance timedOut =>
    obtain rfl : timedOut = false := he
    exact h.advance
  | enter thread => exact h.enter thread
  | readHandle thread => exact h.readHandle thread
  | callReturns thread => exact h.returns thread
  | leave thread => exact h.leave thread
  | exit thread => exact h.exit thread

theorem sound_init : Sound ({} : NativeUse) where
  attended i w hw := by simp at hw
  quiet _ c _ w hw := by cases hw
  calling w hw := by cases hw
  handle session hsession := by cases hsession
  destroyed session hmem := absurd hmem (Finset.notMem_empty _)
  owners c owner howner := by cases howner
  stopping hne := absurd rfl hne
  suffix := List.nil_suffix

/-- As long as no thread is left to itself, no native call is under way on a session that has been
destroyed, however the threads take turns, and every thread has ended when `stopStreaming` has
returned. -/
theorem not_dangling_of_attended {events : List Event}
    (h : Machine.Guarded step Attended {} events) :
    let s := (Machine.exec step {} events).1
    ¬ s.Dangling ∧
      (s.isStreaming = false → s.stopping = [] → ∀ w ∈ s.workers, w.stage = .ended) := by
  intro s
  have hsound : s.Sound := (h.invariant (I := Sound) (P := fun _ => True)
    (fun s e hs he => ⟨hs.step he, fun _ _ => trivial⟩) sound_init).1
  exact ⟨hsound.not_dangling, fun hs hstopping => hsound.ended hstopping hs⟩

/-- A whole stream, in which the threads make their last calls while they are stopped. -/
def sampleStream : List Event :=
  [.startStreaming (.complete true), .enter 0, .readHandle 0, .enter 1, .enter 2, .stopStreaming,
    .advance false, .advance false, .callReturns 0, .exit 0, .advance false, .readHandle 1,
    .advance false, .callReturns 1, .leave 1, .exit 1, .advance false, .advance false, .leave 2,
    .exit 2, .advance false, .advance false, .advance false]

theorem not_dangling_of_attended_sample :
    let s := (Machine.exec step {} sampleStream).1
    s.destroyed = {0} ∧ s.nativeHandle = none ∧ ¬ s.Dangling ∧
      ∀ w ∈ s.workers, w.stage = .ended := by
  intro s
  have hsafe := @not_dangling_of_attended sampleStream (by decide)
  exact ⟨by decide, by decide, hsafe.1, hsafe.2 (by decide) (by decide)⟩

/-- What stops the threads that are attended to, when others are left in a call or before one. -/
def sampleStop (joins : List (List Event × Bool)) (last : List Event) : List Event :=
  .stopStreaming :: joins.flatMap (fun (ends, timedOut) => .advance false :: ends ++
    [.advance timedOut]) ++ last ++ [.advance false]

-- The encoder's first thread after a switch of the camera, an audio thread that is not waited for
-- to its end, and the encoder thread of a start that has thrown: each reads the handle in time.
example :
    (Machine.exec step {} ([.startStreaming (.complete true), .enter 0, .switchCamera true] ++
      sampleStop [([.exit 3], false), ([.exit 1], false), ([.exit 2], false)]
        [.readHandle 0])).1.Dangling ∧
    (Machine.exec step {} ([.startStreaming (.complete true), .enter 1] ++
      sampleStop [([.exit 0], false), ([], true), ([.exit 2], false)]
        [.readHandle 1])).1.Dangling ∧
    (Machine.exec step {} ([.startStreaming (.throws (some true) false false),
      .startStreaming (.complete true), .enter 0] ++
      sampleStop [([.exit 1], false), ([.exit 2], false), ([.exit 3], false)]
        [.readHandle 0])).1.Dangling := by
  decide

end NativeUse

end VeyraCam
