import VeyraCam.Library.Machine
import VeyraCam.Phone.PairingManager

/-! # The ways out of a lockout

When a lockout is over, `verifyPin` starts to count the wrong PINs again.
`startPairing` lets the pairing begin again too, but leaves the count as it is, so
that the next wrong PIN locks the manager at once.
-/

namespace VeyraCam.PairingManager

inductive PairingCall where
  | startPairing (clientFingerprint : Text) (digits : List.Vector (Fin 10) pinLength)
  | verifyPin (input : Text) (tokenBytes : FixedBytes 32)
  | wait (ms : ℕ)
  deriving DecidableEq

def callStep (s : PairingManager × ℕ) : PairingCall → (PairingManager × ℕ) × List PairingResult
  | .startPairing clientFingerprint digits =>
    (((s.1.startPairing clientFingerprint s.2 digits).1, s.2), [])
  | .verifyPin input tokenBytes =>
    (((s.1.verifyPin input s.2 tokenBytes).1, s.2), [(s.1.verifyPin input s.2 tokenBytes).2])
  | .wait ms => ((s.1, s.2 + ms), [])

/-- A PIN that is entered some time after what was done before. -/
structure Attempt where
  waitMs : ℕ
  input : Text
  tokenBytes : FixedBytes 32

def attempts (as : List Attempt) : List PairingCall :=
  as.flatMap fun a => [.wait a.waitMs, .verifyPin a.input a.tokenBytes]

/-- Wrong PINs lock the manager when there are as many as this, and not before. -/
def Tolerates (s : PairingManager × ℕ) (count : ℕ) : Prop :=
  ∀ as : List Attempt, as ≠ [] → (∀ a ∈ as, some a.input ≠ s.1.currentPin) → as.length ≤ count →
    ((Machine.exec callStep s (attempts as)).1.1.state = .locked ↔ as.length = count)

def LockoutOver (s : PairingManager × ℕ) : Prop := s.1.state = .locked ∧ s.1.lockUntilMs ≤ s.2

def resume (s : PairingManager × ℕ) :
    Option (Text × List.Vector (Fin 10) pinLength) → PairingManager × ℕ
  | none => s
  | some (clientFingerprint, digits) => (callStep s (.startPairing clientFingerprint digits)).1

/-- A locked manager has counted five wrong PINs, against a PIN of its own. -/
def LockedAfterFive (p : PairingManager) : Prop :=
  (∀ pin ∈ p.currentPin, IsAscii pin) ∧
    (p.state = .locked → maxAttempts ≤ p.failedAttempts ∧ p.currentPin ≠ none)

variable {p : PairingManager} {pin : Text}

/-! ## Wrong PINs -/

theorem unlocked_eq (h : p.state ≠ .locked) : p.unlocked = p := if_neg h

theorem verifyPin_of_awaiting (hstate : p.state = .awaitingPin) (hpin : p.currentPin = some pin)
    (hascii : IsAscii pin) {input : Text} (hwrong : input ≠ pin) (now : ℕ)
    (tokenBytes : FixedBytes 32) : (p.verifyPin input now tokenBytes).1 = p.refuse now := by
  have hlocked : p.state ≠ .locked := by simp [hstate]
  have hbytes : asciiBytes input ≠ asciiBytes pin := fun h => hwrong (eq_of_asciiBytes_eq hascii h)
  rw [verifyPin, if_neg fun h => hlocked h.1, unlocked_eq hlocked]
  simp [hstate, hpin, hbytes]

theorem verifyPin_of_lockoutOver {now : ℕ} (h : LockoutOver (p, now)) (input : Text)
    (tokenBytes : FixedBytes 32) :
    p.verifyPin input now tokenBytes = p.unlocked.verifyPin input now tokenBytes := by
  have hunlocked : p.unlocked.state = .awaitingPin := congrArg PairingManager.state (if_pos h.1)
  have hstate : p.unlocked.state ≠ .locked := by simp [hunlocked]
  have hover : ¬ (p.state = .locked ∧ now < p.lockUntilMs) := fun hlock =>
    absurd h.2 (Nat.not_le.mpr hlock.2)
  unfold verifyPin
  rw [if_neg hover, if_neg (fun hlock => hstate hlock.1 : ¬ (p.unlocked.state = .locked ∧ _)),
    unlocked_eq hstate]

theorem refuse_state (h : maxAttempts ≤ p.failedAttempts + 1) (now : ℕ) :
    (p.refuse now).state = .locked := by
  unfold refuse
  dsimp only
  rw [if_pos h]

theorem refuse_below (h : p.failedAttempts + 1 < maxAttempts) (now : ℕ) :
    (p.refuse now).state = p.state ∧ (p.refuse now).failedAttempts = p.failedAttempts + 1 := by
  unfold refuse
  dsimp only
  rw [if_neg (Nat.not_le.mpr h)]
  exact ⟨rfl, rfl⟩

theorem exec_attempts_concat (s : PairingManager × ℕ) (as : List Attempt) (a : Attempt) :
    (Machine.exec callStep s (attempts (as ++ [a]))).1 =
      (callStep (callStep (Machine.exec callStep s (attempts as)).1 (.wait a.waitMs)).1
        (.verifyPin a.input a.tokenBytes)).1 := by
  rw [attempts, List.flatMap_append, Machine.exec_append]
  rfl

theorem exec_attempts_below {s : PairingManager × ℕ} (hstate : s.1.state = .awaitingPin)
    (hpin : s.1.currentPin = some pin) (hascii : IsAscii pin) {as : List Attempt}
    (hwrong : ∀ a ∈ as, a.input ≠ pin) (hbelow : s.1.failedAttempts + as.length < maxAttempts) :
    let p := (Machine.exec callStep s (attempts as)).1.1
    p.state = .awaitingPin ∧ p.currentPin = some pin ∧
      p.failedAttempts = s.1.failedAttempts + as.length := by
  induction as using List.reverseRecOn with
  | nil => exact ⟨hstate, hpin, rfl⟩
  | append_singleton as a ih =>
    rw [List.length_append, List.length_singleton] at hbelow ⊢
    obtain ⟨hawaiting, hcurrent, hcount⟩ := ih (fun b hb => hwrong b (by simp [hb])) (by omega)
    obtain ⟨hsame, hnext⟩ := refuse_below (by rw [hcount]; omega)
      ((Machine.exec callStep s (attempts as)).1.2 + a.waitMs)
    dsimp only
    rw [exec_attempts_concat, callStep, callStep,
      verifyPin_of_awaiting hawaiting hcurrent hascii (hwrong a (by simp)), hsame, hnext,
      refuse_currentPin]
    exact ⟨hawaiting, hcurrent, by rw [hcount, Nat.add_assoc]⟩

/-- From any count, as many wrong PINs are tolerated as are left to the limit. -/
theorem tolerates_of_awaiting {s : PairingManager × ℕ} (hstate : s.1.state = .awaitingPin)
    (hpin : s.1.currentPin = some pin) (hascii : IsAscii pin) {count : ℕ}
    (hcount : s.1.failedAttempts + count = maxAttempts) : Tolerates s count := by
  rintro as hne hwrong hlength
  have hwrong : ∀ a ∈ as, a.input ≠ pin := fun a ha h => hwrong a ha (by rw [h, hpin])
  rcases as.eq_nil_or_concat' with rfl | ⟨as, a, rfl⟩
  · exact absurd rfl hne
  rw [List.length_append, List.length_singleton] at hlength ⊢
  have hearlier : ∀ b ∈ as, b.input ≠ pin := fun b hb => hwrong b (List.mem_append_left [a] hb)
  obtain ⟨hawaiting, hcurrent, hbefore⟩ :=
    exec_attempts_below hstate hpin hascii hearlier (by omega)
  rw [exec_attempts_concat, callStep, callStep,
    verifyPin_of_awaiting hawaiting hcurrent hascii (hwrong a (by simp))]
  rcases Nat.lt_or_ge (as.length + 1) count with hlt | hge
  · obtain ⟨hsame, -⟩ := refuse_below (by rw [hbefore]; omega)
      ((Machine.exec callStep s (attempts as)).1.2 + a.waitMs)
    rw [hsame, hawaiting]
    exact iff_of_false (by simp) hlt.ne
  · rw [refuse_state (by rw [hbefore]; omega)]
    exact iff_of_true rfl (by omega)

/-! ## After a lockout -/

theorem exec_attempts_of_lockoutOver {now : ℕ} (h : LockoutOver (p, now)) (a : Attempt)
    (as : List Attempt) :
    (Machine.exec callStep (p, now) (attempts (a :: as))).1 =
      (Machine.exec callStep (p.unlocked, now) (attempts (a :: as))).1 := by
  have hlater : LockoutOver (p, now + a.waitMs) := ⟨h.1, h.2.trans (Nat.le_add_right now a.waitMs)⟩
  change (Machine.exec callStep ((p.verifyPin a.input (now + a.waitMs) a.tokenBytes).1, _)
    (attempts as)).1 = _
  rw [verifyPin_of_lockoutOver hlater]
  rfl

theorem tolerates_of_lockoutOver {s : PairingManager × ℕ} (h : LockoutOver s)
    (hpin : s.1.currentPin = some pin) (hascii : IsAscii pin) : Tolerates s maxAttempts := by
  obtain ⟨p, now⟩ := s
  have hunlocked : p.unlocked = { p with state := .awaitingPin, failedAttempts := 0 } := if_pos h.1
  have htolerates : Tolerates (p.unlocked, now) maxAttempts := by
    refine tolerates_of_awaiting ?_ ?_ hascii ?_
    · rw [hunlocked]
    · rw [unlocked_currentPin, hpin]
    · rw [hunlocked, Nat.zero_add]
  rintro (- | ⟨a, as⟩) hne hwrong hlength
  · exact absurd rfl hne
  rw [exec_attempts_of_lockoutOver h]
  exact htolerates (a :: as) hne (by simpa using hwrong) hlength

theorem not_tolerates_resume {s : PairingManager × ℕ} (h : LockoutOver s)
    (hcount : maxAttempts ≤ s.1.failedAttempts) (clientFingerprint : Text)
    (digits : List.Vector (Fin 10) pinLength) :
    ¬ Tolerates (resume s (some (clientFingerprint, digits))) maxAttempts := by
  intro htolerates
  have hresume : (resume s (some (clientFingerprint, digits))).1 =
      { s.1 with
        state := .awaitingPin
        currentPin := some (generatePin digits)
        authToken := none
        pairedClientFingerprint := some clientFingerprint } := by
    rw [resume, callStep, startPairing, if_neg fun hlock => absurd h.2 (Nat.not_le.mpr hlock.2)]
  have hwrong : ([] : Text) ≠ generatePin digits := by
    intro hempty
    have hlength := congrArg List.length hempty
    rw [generatePin, List.length_map, List.Vector.toList_length] at hlength
    cases hlength
  have hfirst := htolerates [⟨0, [], .replicate 32 0⟩] (by simp) (by simpa [hresume] using hwrong)
    (by decide)
  have hlocked : (Machine.exec callStep (resume s (some (clientFingerprint, digits)))
      (attempts [⟨0, [], .replicate 32 0⟩])).1.1.state = .locked := by
    have hcheck := verifyPin_of_awaiting
      (p := (resume s (some (clientFingerprint, digits))).1) (by rw [hresume]) (by rw [hresume])
      (isAscii_generatePin digits) hwrong s.2 (.replicate 32 0)
    change ((resume s (some (clientFingerprint, digits))).1.verifyPin [] s.2 _).1.state = _
    rw [hcheck]
    exact refuse_state (by rw [hresume]; exact hcount.trans (Nat.le_succ _)) s.2
  exact absurd (hfirst.mp hlocked) (by decide)

theorem LockedAfterFive.refuse (h : LockedAfterFive p) (hpin : p.currentPin ≠ none) (now : ℕ)
    (hstate : p.state ≠ .locked) : LockedAfterFive (p.refuse now) := by
  refine ⟨by simpa using h.1, ?_⟩
  rw [refuse_currentPin]
  intro hlocked
  rcases Nat.lt_or_ge (p.failedAttempts + 1) maxAttempts with hlt | hge
  · exact absurd ((refuse_below hlt now).1.symm.trans hlocked) hstate
  · refine ⟨?_, hpin⟩
    unfold PairingManager.refuse
    dsimp only
    rw [if_pos hge]
    exact hge

theorem LockedAfterFive.unlocked (h : LockedAfterFive p) : LockedAfterFive p.unlocked := by
  refine ⟨by simpa using h.1, fun hlocked => ?_⟩
  unfold PairingManager.unlocked at hlocked
  split_ifs at hlocked with hstate
  exact absurd hlocked hstate

theorem LockedAfterFive.callStep {s : PairingManager × ℕ} (h : LockedAfterFive s.1)
    (call : PairingCall) : LockedAfterFive (callStep s call).1.1 := by
  cases call with
  | startPairing clientFingerprint digits =>
    rw [PairingManager.callStep, startPairing]
    split_ifs
    · exact h
    · refine ⟨?_, fun hlocked => absurd hlocked (by simp)⟩
      rintro pin hpin
      obtain rfl := Option.some.inj hpin
      exact isAscii_generatePin digits
  | verifyPin input tokenBytes =>
    rw [PairingManager.callStep]
    rcases s.1.verifyPin_cases input s.2 tokenBytes with
      ⟨-, -, hv⟩ | ⟨-, -, hv⟩ | ⟨-, hawaiting, expected, hpin, ⟨-, hv⟩ | ⟨-, hv⟩⟩ <;> rw [hv]
    · exact h
    · exact h.unlocked
    · exact ⟨h.unlocked.1, fun hlocked => absurd hlocked (by simp [succeed])⟩
    · exact h.unlocked.refuse (by simp [hpin]) s.2 (by simp [hawaiting])
  | wait ms => exact h

/-- In every run that reaches a lockout, once it is over, five wrong PINs are tolerated up to the
next one exactly when pairing resumes without a new `startPairing`. -/
theorem tolerates_five_iff {start : ℕ} {calls : List PairingCall}
    (h : LockoutOver (Machine.exec callStep ({}, start) calls).1)
    (resumption : Option (Text × List.Vector (Fin 10) pinLength)) :
    Tolerates (resume (Machine.exec callStep ({}, start) calls).1 resumption) 5 ↔
      resumption = none := by
  have hinvariant : LockedAfterFive (Machine.exec callStep ({}, start) calls).1.1 :=
    Machine.invariant (I := fun s : PairingManager × ℕ => LockedAfterFive s.1)
      (fun s call hs => LockedAfterFive.callStep hs call) (by simp [LockedAfterFive]) calls
  obtain ⟨hcount, hsome⟩ := hinvariant.2 h.1
  obtain ⟨pin, hpin⟩ := Option.ne_none_iff_exists'.mp hsome
  rcases resumption with - | ⟨clientFingerprint, digits⟩
  · exact iff_of_true (tolerates_of_lockoutOver h hpin (hinvariant.1 pin hpin)) rfl
  · exact iff_of_false (not_tolerates_resume h hcount clientFingerprint digits) (by simp)

def sampleLockout : List PairingCall :=
  .startPairing [] zeroDigits :: .replicate 5 (.verifyPin [] (.replicate 32 0)) ++ [.wait 30000]

theorem tolerates_five_without_startPairing :
    Tolerates (resume (Machine.exec callStep ({}, 0) sampleLockout).1 none) 5 :=
  (tolerates_five_iff ⟨by decide, by decide⟩ none).mpr rfl

/-- After a lockout and a new `startPairing`, one wrong PIN begins the next lockout. -/
theorem not_tolerates_five_startPairing :
    let s := (Machine.exec callStep ({}, 0) (sampleLockout ++ [.startPairing [] zeroDigits])).1
    s.1.state = .awaitingPin ∧
      (Machine.exec callStep s [.verifyPin [] (.replicate 32 0)]).1.1.state = .locked ∧
      ¬ Tolerates s 5 := by
  refine ⟨by decide, by decide, fun h => ?_⟩
  have hfirst := h [⟨0, [], .replicate 32 0⟩] (by decide) (by decide) (by decide)
  exact absurd (hfirst.mp (by decide)) (by decide)

end VeyraCam.PairingManager
