import VeyraCam.Library.AttemptLimit
import VeyraCam.Phone.UdpTransport

/-! # The lockout

Five wrong PINs lock the pairing manager for 30 seconds, but the manager is
reset whenever a connection ends, which forgets the failures and the lockout.
The lockout holds in the runs in which a connection only ends when there is
nothing to forget.
-/

namespace VeyraCam

namespace PairingManager

/-- After five wrong PINs without a success no PIN is compared for 30 seconds. -/
def LocksOut (p : PairingManager) : Prop :=
  AttemptLimit.LocksOut Comparison.at_ms Comparison.matched maxAttempts lockoutMs p.comparisons

def observer (p : PairingManager) : AttemptLimit.Observer :=
  AttemptLimit.observed Comparison.at_ms Comparison.matched maxAttempts lockoutMs p.comparisons

/-- The invariant: the manager counts what the observer counts, and is locked for as long as
the observer expects it to be. -/
structure Limits (p : PairingManager) (now : ℕ) : Prop where
  respected : AttemptLimit.Respected Comparison.at_ms Comparison.matched maxAttempts lockoutMs
    p.comparisons
  locked : p.state = .locked → p.observer = ⟨0, p.lockUntilMs⟩ ∧ p.failedAttempts ≠ 0
  failures : p.state ≠ .locked → p.observer.failures = p.failedAttempts
  blockedUntil : p.state ≠ .locked → p.observer.blockedUntil ≤ now
  below : p.state ≠ .locked → p.failedAttempts < maxAttempts

variable {p : PairingManager} {now : ℕ}

theorem Limits.later (h : Limits p now) (ms : ℕ) : Limits p (now + ms) where
  respected := h.respected
  locked := h.locked
  failures := h.failures
  blockedUntil hs := (h.blockedUntil hs).trans (Nat.le_add_right now ms)
  below := h.below

theorem Limits.unlocked (h : Limits p now) (hu : ¬ (p.state = .locked ∧ now < p.lockUntilMs)) :
    Limits p.unlocked now := by
  unfold PairingManager.unlocked
  split_ifs with hl
  · obtain ⟨ho, -⟩ := h.locked hl
    have hnow : p.lockUntilMs ≤ now := by
      by_contra hlt
      exact hu ⟨hl, by omega⟩
    constructor
    · exact h.respected
    · simp
    · intro _
      exact congrArg AttemptLimit.Observer.failures ho
    · intro _
      exact (congrArg AttemptLimit.Observer.blockedUntil ho).trans_le hnow
    · intro _
      exact Nat.succ_pos 4
  · exact h

theorem Limits.compare (h : Limits p now) (hs : p.state ≠ .locked) (matched : Bool) :
    AttemptLimit.Respected Comparison.at_ms Comparison.matched maxAttempts lockoutMs
      (p.comparisons ++ [⟨now, matched⟩]) :=
  h.respected.concat (h.blockedUntil hs)

theorem Limits.succeed (h : Limits p now) (hs : p.state ≠ .locked) (tokenBytes : FixedBytes 32) :
    Limits (p.succeed now tokenBytes) now := by
  have ho : (p.succeed now tokenBytes).observer = { p.observer with failures := 0 } := by
    unfold observer PairingManager.succeed
    rw [AttemptLimit.observed_concat, AttemptLimit.observe_of_succeeds _ rfl]
  constructor
  · exact h.compare hs true
  · simp [PairingManager.succeed]
  · intro _
    rw [ho]
    rfl
  · intro _
    rw [ho]
    exact h.blockedUntil hs
  · intro _
    exact Nat.succ_pos 4

theorem Limits.refuse (h : Limits p now) (hs : p.state ≠ .locked) :
    Limits (p.refuse now) now := by
  have hfail : Comparison.matched ⟨now, false⟩ = false := rfl
  have hcount := h.failures hs
  have hrespected := h.compare hs false
  unfold PairingManager.refuse
  dsimp only
  split_ifs with hlimit
  · have ho : AttemptLimit.observed Comparison.at_ms Comparison.matched maxAttempts lockoutMs
        (p.comparisons ++ [⟨now, false⟩]) = ⟨0, now + lockoutMs⟩ := by
      rw [AttemptLimit.observed_concat]
      exact AttemptLimit.observe_of_limit hfail (hcount ▸ hlimit)
    constructor
    · exact hrespected
    · intro _
      exact ⟨ho, Nat.succ_ne_zero _⟩
    all_goals simp
  · have ho : AttemptLimit.observed Comparison.at_ms Comparison.matched maxAttempts lockoutMs
        (p.comparisons ++ [⟨now, false⟩]) =
          { p.observer with failures := p.failedAttempts + 1 } := by
      rw [AttemptLimit.observed_concat, ← hcount]
      exact AttemptLimit.observe_of_fails hfail (hcount ▸ Nat.lt_of_not_le hlimit)
    constructor
    · exact hrespected
    · exact fun hl => absurd hl hs
    · intro _
      exact congrArg AttemptLimit.Observer.failures ho
    · intro _
      exact (congrArg AttemptLimit.Observer.blockedUntil ho).trans_le (h.blockedUntil hs)
    · intro _
      exact Nat.lt_of_not_le hlimit

theorem Limits.congr (h : Limits p now) (hs : p.state ≠ .locked) {q : PairingManager}
    (hq : q.state ≠ .locked) (hc : q.comparisons = p.comparisons)
    (hf : q.failedAttempts = p.failedAttempts) : Limits q now := by
  have ho : q.observer = p.observer := by unfold observer; rw [hc]
  constructor
  · rw [hc]
    exact h.respected
  · exact fun hl => absurd hl hq
  · intro _
    rw [ho, hf]
    exact h.failures hs
  · intro _
    rw [ho]
    exact h.blockedUntil hs
  · intro _
    rw [hf]
    exact h.below hs

theorem Limits.reset (h : Limits p now)
    (hn : p.failedAttempts = 0 ∨ p.state = .locked ∧ p.lockUntilMs ≤ now) :
    Limits p.reset now := by
  have hfailures : p.observer.failures = 0 := by
    by_cases hl : p.state = .locked
    · rw [(h.locked hl).1]
    · rcases hn with hn | ⟨hl', -⟩
      · rw [h.failures hl, hn]
      · exact absurd hl' hl
  have hblocked : p.observer.blockedUntil ≤ now := by
    by_cases hl : p.state = .locked
    · rcases hn with hn | ⟨-, hn⟩
      · exact absurd hn (h.locked hl).2
      · rw [(h.locked hl).1]
        exact hn
    · exact h.blockedUntil hl
  constructor
  · exact h.respected
  · simp [PairingManager.reset]
  · exact fun _ => hfailures
  · exact fun _ => hblocked
  · exact fun _ => Nat.succ_pos 4

end PairingManager

namespace Phone

variable {env : Android} {s : Phone}

/-- The control thread is past the loop of `handleConnection`. -/
def isLeaving (s : Phone) : Bool := s.connection.any (·.stage = .leaving)

/-- A connection is left with no failure counted, or after the end of a lockout. -/
def NothingForgotten (s : Phone) : PhoneEvent → Prop
  | .proceed _ => s.isLeaving = true →
    s.pairingManager.failedAttempts = 0 ∨
      s.pairingManager.state = .locked ∧ s.pairingManager.lockUntilMs ≤ s.now
  | _ => True

instance : (e : PhoneEvent) → Decidable (NothingForgotten s e)
  | .proceed _ => inferInstanceAs (Decidable (_ → _))
  | .accept _ _ _ | .line _ _ | .hangup | .send _ | .tick _ => isTrue trivial

/-- The invariant; between connections the manager is not locked. -/
structure Limits (s : Phone) : Prop where
  limits : s.pairingManager.Limits s.now
  idle : s.connection = none → s.pairingManager.state ≠ .locked

theorem Responds.connection_ne {c : Connection} {text : Text} {field : Text → Text}
    (h : Responds env s c text field) : s.connection ≠ none := by
  rw [h.connection]
  exact Option.some_ne_none c

theorem Compares.state_ne {expected : Text} (h : Compares s expected) :
    s.pairingManager.unlocked.state ≠ .locked := by
  rw [h.awaiting]
  simp

theorem Limits.transition (h : Limits s) {e : PhoneEvent} {s' : Phone}
    {outputs : List PhoneOutput} (ht : Transition env s e s' outputs)
    (hg : NothingForgotten s e) : Limits s' := by
  cases ht with
  | idle => exact h
  | refuse => exact h
  | accept hc hu =>
    refine ⟨h.limits.congr (h.idle hc) (by simp) rfl rfl, by simp⟩
  | verify hr hc _ _ =>
    exact ⟨(h.limits.unlocked hc.unlocked).succeed hc.state_ne _, by simp⟩
  | verifyWithoutKey hr hc _ =>
    exact ⟨(h.limits.unlocked hc.unlocked).succeed hc.state_ne _,
      fun hn => absurd hn hr.connection_ne⟩
  | wrongPin hr hc _ =>
    exact ⟨(h.limits.unlocked hc.unlocked).refuse hc.state_ne,
      fun hn => absurd hn hr.connection_ne⟩
  | lockedOut => exact ⟨h.limits, by simp⟩
  | notAwaiting hr hu _ =>
    exact ⟨h.limits.unlocked hu, fun hn => absurd hn hr.connection_ne⟩
  | command => exact h
  | hangup => exact ⟨h.limits, by simp⟩
  | complete => exact ⟨h.limits, by simp⟩
  | failToComplete => exact ⟨h.limits, by simp⟩
  | configure => exact ⟨h.limits, by simp⟩
  | leave hc hl =>
    have hleaving : s.isLeaving = true := by simp [isLeaving, hc, hl]
    exact ⟨h.limits.reset (hg hleaving), by simp [PairingManager.reset]⟩
  | send => exact ⟨h.limits, h.idle⟩
  | tick => exact ⟨h.limits.later _, h.idle⟩

theorem limits_create (sessionId : UInt32) : Limits (create sessionId) := by
  refine ⟨⟨AttemptLimit.respected_nil, by simp [create], fun _ => rfl, fun _ => Nat.zero_le _,
    fun _ => Nat.succ_pos 4⟩, by simp [create]⟩

/-- The lockout holds in every run that never leaves a connection with something to forget. -/
theorem locksOut_of_nothingForgotten {sessionId : UInt32} {events : List PhoneEvent}
    (h : Machine.Guarded (step env) NothingForgotten (create sessionId) events) :
    (Machine.exec (step env) (create sessionId) events).1.pairingManager.LocksOut :=
  (h.invariant (I := Limits) (P := fun _ => True)
    (fun s e hs hg => ⟨hs.transition (transition_step s e) hg, fun _ _ => trivial⟩)
    (limits_create sessionId)).1.limits.respected.locksOut

/-- Five wrong PINs, the right one while the manager is locked, the end of the connection 30 seconds
later, and the right PIN on a new one. -/
def sampleLockout : List PhoneEvent :=
  .accept "10.0.0.9".toList PairingManager.zeroDigits (.sample 49) ::
    (.replicate 5 "000001" ++ ["000000"]).map (fun pin =>
      .line (sampleResponse pin) (.replicate 32 1)) ++
    [.tick PairingManager.lockoutMs, .proceed true] ++ sampleVisit "10.0.0.9" ["000000"]

set_option maxRecDepth 100000 in
theorem locksOut_of_nothingForgotten_sample :
    let p := (Machine.exec (step .sample) (create 7) sampleLockout).1.pairingManager
    p.comparisons = .replicate 5 ⟨0, false⟩ ++ [⟨PairingManager.lockoutMs, true⟩] ∧
      p.LocksOut :=
  ⟨by decide, locksOut_of_nothingForgotten (by decide)⟩

set_option maxRecDepth 100000 in
/-- Five wrong PINs and a new connection: a sixth PIN is compared at once. -/
theorem not_locksOut_reconnect :
    ¬ (Machine.exec (step .sample) (create 7)
      (sampleVisit "10.0.0.9" (.replicate 5 "000001") ++ [.hangup, .proceed true] ++
        sampleVisit "10.0.0.9" ["000001"])).1.pairingManager.LocksOut := by
  intro h
  have hlate := h [] (.replicate 5 ⟨0, false⟩) [⟨0, false⟩] (by decide) .nil rfl (by decide)
    ⟨0, false⟩ rfl ⟨0, false⟩ (by simp)
  exact absurd hlate (by decide)

end Phone

end VeyraCam
