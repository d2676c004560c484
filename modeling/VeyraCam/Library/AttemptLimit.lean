import Mathlib.Data.List.Induction

/-! # Limiting attempts

A limiter counts failures since the last success and, once there are as many
as its limit, lets no attempt be made for a while, after which the count starts
again. An observer of the attempts alone can tell whether it does.
-/

namespace VeyraCam.AttemptLimit

variable {α : Type*} (time : α → ℕ) (succeeds : α → Bool) (limit cooldown : ℕ)

/-- What an observer keeps: the failures counted, and the end of the last lockout. -/
structure Observer where
  failures : ℕ := 0
  blockedUntil : ℕ := 0

def observe (o : Observer) (a : α) : Observer :=
  if succeeds a then { o with failures := 0 }
  else if limit ≤ o.failures + 1 then ⟨0, time a + cooldown⟩
  else { o with failures := o.failures + 1 }

def observed (as : List α) : Observer := as.foldl (observe time succeeds limit cooldown) {}

/-- No attempt is made in a lockout that the observer knows of. -/
def Respected (as : List α) : Prop :=
  ∀ before a after, as = before ++ a :: after →
    (observed time succeeds limit cooldown before).blockedUntil ≤ time a

/-- The count starts: at first, after a success, and after a lockout. -/
inductive CountStarts : List α → Prop
  | nil : CountStarts []
  | success {as : List α} {a : α} (ha : succeeds a = true) : CountStarts (as ++ [a])
  | lockout {as failures : List α} (h : CountStarts as) (hlength : failures.length = limit)
      (hfail : ∀ a ∈ failures, succeeds a = false) : CountStarts (as ++ failures)

/-- After as many failures as the limit, no attempt is made until the lockout is over. -/
def LocksOut (as : List α) : Prop :=
  ∀ before failures after, as = before ++ failures ++ after →
    CountStarts succeeds limit before → failures.length = limit →
    (∀ a ∈ failures, succeeds a = false) →
    ∀ last ∈ failures.getLast?, ∀ next ∈ after, time last + cooldown ≤ time next

variable {time succeeds limit cooldown} {as : List α} {a : α}

theorem observed_concat (as : List α) (a : α) :
    observed time succeeds limit cooldown (as ++ [a]) =
      observe time succeeds limit cooldown (observed time succeeds limit cooldown as) a := by
  simp [observed]

theorem observe_of_succeeds (o : Observer) (h : succeeds a = true) :
    observe time succeeds limit cooldown o a = { o with failures := 0 } := by
  rw [observe, if_pos h]

theorem observe_of_limit {o : Observer} (h : succeeds a = false) (hl : limit ≤ o.failures + 1) :
    observe time succeeds limit cooldown o a = ⟨0, time a + cooldown⟩ := by
  rw [observe, if_neg (by simp [h]), if_pos hl]

theorem observe_of_fails {o : Observer} (h : succeeds a = false) (hl : o.failures + 1 < limit) :
    observe time succeeds limit cooldown o a = { o with failures := o.failures + 1 } := by
  rw [observe, if_neg (by simp [h]), if_neg (by omega)]

theorem respected_nil : Respected time succeeds limit cooldown [] := by
  intro before a after h
  simp at h

theorem Respected.concat (h : Respected time succeeds limit cooldown as)
    (ha : (observed time succeeds limit cooldown as).blockedUntil ≤ time a) :
    Respected time succeeds limit cooldown (as ++ [a]) := by
  intro before b after he
  induction after using List.reverseRecOn with
  | nil =>
    obtain ⟨rfl, hb⟩ := List.append_inj' he rfl
    obtain rfl := List.singleton_inj.mp hb
    exact ha
  | append_singleton after c _ =>
    rw [← List.cons_append, ← List.append_assoc] at he
    exact h before b after (List.append_inj' he rfl).1

theorem Respected.of_append {bs : List α} (h : Respected time succeeds limit cooldown (as ++ bs)) :
    Respected time succeeds limit cooldown as := by
  rintro before a after rfl
  exact h before a (after ++ bs) (by simp)

theorem Respected.blockedUntil_le {bs : List α}
    (h : Respected time succeeds limit cooldown (as ++ bs)) :
    (observed time succeeds limit cooldown as).blockedUntil ≤
      (observed time succeeds limit cooldown (as ++ bs)).blockedUntil := by
  induction bs using List.reverseRecOn with
  | nil => simp
  | append_singleton bs b ih =>
    rw [← List.append_assoc] at h ⊢
    have hb := h (as ++ bs) b [] rfl
    have ih := ih h.of_append
    rw [observed_concat, observe]
    split_ifs
    · exact ih
    · dsimp only
      omega
    · exact ih

theorem failures_observed {failures : List α} (hfail : ∀ a ∈ failures, succeeds a = false)
    (hlt : failures.length < limit)
    (hstart : (observed time succeeds limit cooldown as).failures = 0) :
    (observed time succeeds limit cooldown (as ++ failures)).failures = failures.length := by
  induction failures using List.reverseRecOn with
  | nil => simpa using hstart
  | append_singleton failures a ih =>
    rw [List.length_append, List.length_singleton] at hlt ⊢
    have ih := ih (fun b hb => hfail b (by simp [hb])) (by omega)
    rw [← List.append_assoc, observed_concat,
      observe_of_fails (hfail a (by simp)) (by rw [ih]; exact hlt), ih]

/-- As many failures as the limit begin a lockout. -/
theorem observed_lockout {failures : List α} (hfail : ∀ a ∈ failures, succeeds a = false)
    (hlength : (failures ++ [a]).length = limit) (ha : succeeds a = false)
    (hstart : (observed time succeeds limit cooldown as).failures = 0) :
    observed time succeeds limit cooldown (as ++ (failures ++ [a])) = ⟨0, time a + cooldown⟩ := by
  rw [List.length_append, List.length_singleton] at hlength
  rw [← List.append_assoc, observed_concat]
  apply observe_of_limit ha
  rw [failures_observed hfail (by omega) hstart]
  omega

theorem CountStarts.failures_eq_zero (h : CountStarts succeeds limit as) :
    (observed time succeeds limit cooldown as).failures = 0 := by
  induction h with
  | nil => rfl
  | success ha => rw [observed_concat, observe_of_succeeds _ ha]
  | @lockout as failures h hlength hfail ih =>
    induction failures using List.reverseRecOn with
    | nil => simpa using ih
    | append_singleton failures a _ =>
      rw [observed_lockout (fun b hb => hfail b (by simp [hb])) hlength (hfail a (by simp)) ih]

/-- A history that the observer finds respected has its lockouts. -/
theorem Respected.locksOut (h : Respected time succeeds limit cooldown as) :
    LocksOut time succeeds limit cooldown as := by
  rintro before failures after rfl hstart hlength hfail last hlast next hnext
  induction failures using List.reverseRecOn with
  | nil => simp at hlast
  | append_singleton failures a _ =>
    obtain rfl : a = last := by simpa using hlast
    obtain ⟨between, after, rfl⟩ := List.append_of_mem hnext
    have hlock : observed time succeeds limit cooldown (before ++ (failures ++ [a])) =
        ⟨0, time a + cooldown⟩ :=
      observed_lockout (fun b hb => hfail b (by simp [hb])) hlength (hfail a (by simp))
        hstart.failures_eq_zero
    have hnext := h (before ++ (failures ++ [a]) ++ between) next after (by simp)
    have hprefix : Respected time succeeds limit cooldown
        (before ++ (failures ++ [a]) ++ between) := by
      rw [← List.append_assoc] at h
      exact h.of_append
    have hmono := hprefix.blockedUntil_le
    rw [hlock] at hmono
    exact Nat.le_trans hmono hnext

end VeyraCam.AttemptLimit
