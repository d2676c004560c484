import Mathlib.Data.List.Induction

/-! # Deterministic machines with outputs

A step function answers each input with a new state and a list of outputs.
Runs collect the outputs in order. Induction rules carry invariants along runs:
from any state, under a guard on the inputs, to say exactly when the steps of a
run, their outputs or the states it passes through are as allowed, and with the
history of the run in the invariant. A last one compares two runs through a relation.
-/

namespace VeyraCam.Machine

variable {σ τ ι ι' ο : Type*}

/-- The state after a list of inputs, with the outputs in order. -/
def exec (step : σ → ι → σ × List ο) : σ → List ι → σ × List ο
  | s, [] => (s, [])
  | s, i :: is => ((exec step (step s i).1 is).1, (step s i).2 ++ (exec step (step s i).1 is).2)

/-- Every step of the run meets the guard, in the state it is made in. -/
def Guarded (step : σ → ι → σ × List ο) (G : σ → ι → Prop) : σ → List ι → Prop
  | _, [] => True
  | s, i :: is => G s i ∧ Guarded step G (step s i).1 is

variable {step : σ → ι → σ × List ο} {G : σ → ι → Prop}

instance decidableGuarded [∀ s i, Decidable (G s i)] :
    (s : σ) → (is : List ι) → Decidable (Guarded step G s is)
  | _, [] => inferInstanceAs (Decidable True)
  | s, i :: is =>
    have := decidableGuarded (step s i).1 is
    inferInstanceAs (Decidable (G s i ∧ Guarded step G (step s i).1 is))

@[simp] theorem exec_nil (s : σ) : exec step s [] = (s, []) := rfl

@[simp] theorem exec_cons (s : σ) (i : ι) (is : List ι) :
    exec step s (i :: is) =
      ((exec step (step s i).1 is).1, (step s i).2 ++ (exec step (step s i).1 is).2) := rfl

theorem exec_append (s : σ) (is js : List ι) :
    exec step s (is ++ js) =
      ((exec step (exec step s is).1 js).1,
        (exec step s is).2 ++ (exec step (exec step s is).1 js).2) := by
  induction is generalizing s with
  | nil => simp
  | cons i is ih => simp [ih]

theorem exec_concat (s : σ) (is : List ι) (i : ι) :
    exec step s (is ++ [i]) =
      ((step (exec step s is).1 i).1, (exec step s is).2 ++ (step (exec step s is).1 i).2) := by
  simp [exec_append]

/-- An invariant kept by every guarded step, whose steps output only what `P`
allows, holds after a guarded run, and the run outputs only what `P` allows. -/
theorem Guarded.invariant {I : σ → Prop} {P : ο → Prop}
    (hstep : ∀ s i, I s → G s i → I (step s i).1 ∧ ∀ o ∈ (step s i).2, P o)
    {s : σ} {is : List ι} (hs : I s) (hg : Guarded step G s is) :
    I (exec step s is).1 ∧ ∀ o ∈ (exec step s is).2, P o := by
  induction is generalizing s with
  | nil => exact ⟨hs, by simp⟩
  | cons i is ih =>
    obtain ⟨h, hP⟩ := hstep s i hs hg.1
    obtain ⟨h', hP'⟩ := ih h hg.2
    refine ⟨h', fun o ho => ?_⟩
    rcases List.mem_append.mp ho with ho | ho
    · exact hP o ho
    · exact hP' o ho

theorem guarded_of_forall {Q : ι → Prop} {is : List ι} (h : ∀ i ∈ is, Q i) (s : σ) :
    Guarded step (fun _ i => Q i) s is := by
  induction is generalizing s with
  | nil => trivial
  | cons i is ih =>
    obtain ⟨hi, his⟩ := List.forall_mem_cons.mp h
    exact ⟨hi, ih his _⟩

theorem guarded_append {s : σ} {is js : List ι} :
    Guarded step G s (is ++ js) ↔
      Guarded step G s is ∧ Guarded step G (exec step s is).1 js := by
  induction is generalizing s with
  | nil => exact (and_iff_right trivial).symm
  | cons i is ih => exact (and_congr_right fun _ => ih).trans and_assoc.symm

theorem Guarded.and {G' : σ → ι → Prop} {s : σ} {is : List ι} (h : Guarded step G s is)
    (h' : Guarded step G' s is) : Guarded step (fun s i => G s i ∧ G' s i) s is := by
  induction is generalizing s with
  | nil => trivial
  | cons i is ih => exact ⟨⟨h.1, h'.1⟩, ih h.2 h'.2⟩

theorem invariant {I : σ → Prop} (hstep : ∀ s i, I s → I (step s i).1) {s : σ} (hs : I s)
    (is : List ι) : I (exec step s is).1 :=
  ((guarded_of_forall (Q := fun _ => True) (fun _ _ => trivial) s).invariant (P := fun _ => True)
    (fun s i h _ => ⟨hstep s i h, fun _ _ => trivial⟩) hs).1

/-- Where each step from a state of the invariant outputs only what `P` allows exactly when
the guard is met, so does a run. -/
theorem forall_outputs_iff_guarded {I : σ → Prop} {P : ο → Prop} {Q : ι → Prop}
    (hstep : ∀ s i, I s → Q i → I (step s i).1)
    (hiff : ∀ s i, I s → Q i → ((∀ o ∈ (step s i).2, P o) ↔ G s i)) {s : σ} (hs : I s)
    {is : List ι} (hq : ∀ i ∈ is, Q i) :
    (∀ o ∈ (exec step s is).2, P o) ↔ Guarded step G s is := by
  induction is generalizing s with
  | nil => exact ⟨fun _ => trivial, fun _ => by simp⟩
  | cons i is ih =>
    obtain ⟨hi, his⟩ := List.forall_mem_cons.mp hq
    rw [exec_cons, List.forall_mem_append, hiff s i hs hi, ih (hstep s i hs hi) his]
    rfl

/-- Where the guard keeps an invariant that gives `P`, and a step that `P` survives meets the
guard, a run in which `Q` holds of every step is guarded exactly when `P` holds of every state it
passes through. -/
theorem guarded_iff_forall_reached_of_guarded {I P : σ → Prop} {Q : σ → ι → Prop}
    (hstep : ∀ s i, I s → Q s i → G s i → I (step s i).1) (hP : ∀ s, I s → P s)
    (hguard : ∀ s i, I s → Q s i → P (step s i).1 → G s i) {s : σ} (hs : I s) {is : List ι}
    (hq : Guarded step Q s is) :
    Guarded step G s is ↔ ∀ pre, pre <+: is → P (exec step s pre).1 := by
  induction is generalizing s with
  | nil =>
    refine iff_of_true trivial ?_
    rintro pre hpre
    obtain rfl := List.prefix_nil.mp hpre
    exact hP s hs
  | cons i is ih =>
    obtain ⟨hqi, hq⟩ := hq
    constructor
    · rintro ⟨hi, hg⟩ pre hcons
      cases pre with
      | nil => exact hP s hs
      | cons j pre =>
        obtain ⟨rfl, hpre⟩ := List.cons_prefix_cons.mp hcons
        exact (ih (hstep s j hs hqi hi) hq).mp hg pre hpre
    · intro h
      have hi : G s i := hguard s i hs hqi (h [i] (List.prefix_append [i] is))
      refine ⟨hi, (ih (hstep s i hs hqi hi) hq).mpr fun pre hpre => ?_⟩
      exact h (i :: pre) (List.cons_prefix_cons.mpr ⟨rfl, hpre⟩)

theorem guarded_iff_forall_reached {I P : σ → Prop} (hstep : ∀ s i, I s → G s i → I (step s i).1)
    (hP : ∀ s, I s → P s) (hguard : ∀ s i, I s → P (step s i).1 → G s i) {s : σ} (hs : I s)
    (is : List ι) :
    Guarded step G s is ↔ ∀ pre, pre <+: is → P (exec step s pre).1 :=
  guarded_iff_forall_reached_of_guarded (Q := fun _ _ => True) (fun s i h _ => hstep s i h) hP
    (fun s i h _ => hguard s i h) hs (guarded_of_forall (fun _ _ => trivial) s)

/-- Two guards that say the same in the states of an invariant are met by the same runs. -/
theorem guarded_congr {I : σ → Prop} {P : σ → ι → Prop}
    (hstep : ∀ s i, I s → G s i → I (step s i).1) (hiff : ∀ s i, I s → (P s i ↔ G s i)) {s : σ}
    (hs : I s) (is : List ι) : Guarded step P s is ↔ Guarded step G s is := by
  induction is generalizing s with
  | nil => rfl
  | cons i is ih =>
    constructor
    · rintro ⟨hi, his⟩
      have hg : G s i := (hiff s i hs).mp hi
      exact ⟨hg, (ih (hstep s i hs hg)).mp his⟩
    · rintro ⟨hg, his⟩
      exact ⟨(hiff s i hs).mpr hg, (ih (hstep s i hs hg)).mpr his⟩

/-- The guard is met at each step when it is after each part of the run. -/
theorem guarded_iff_forall_concat {s : σ} {is : List ι} :
    Guarded step G s is ↔ ∀ pre i, pre ++ [i] <+: is → G (exec step s pre).1 i := by
  induction is generalizing s with
  | nil =>
    refine iff_of_true trivial fun pre i hpre => ?_
    have hnil := List.prefix_nil.mp hpre
    simp at hnil
  | cons i is ih =>
    constructor
    · rintro ⟨hi, his⟩ pre j hpre
      cases pre with
      | nil =>
        obtain ⟨rfl, -⟩ := List.cons_prefix_cons.mp hpre
        exact hi
      | cons k pre =>
        obtain ⟨rfl, hrest⟩ := List.cons_prefix_cons.mp hpre
        exact ih.mp his pre j hrest
    · intro h
      refine ⟨h [] i (List.prefix_append [i] is), ih.mpr fun pre j hpre => ?_⟩
      exact h (i :: pre) j (List.cons_prefix_cons.mpr ⟨rfl, hpre⟩)

/-- Invariants that mention the inputs consumed and the outputs produced so far. -/
theorem history_invariant (step : σ → ι → σ × List ο) (s : σ) (is : List ι)
    {I : List ι → σ → List ο → Prop} (h₀ : I [] s [])
    (hstep : ∀ pre i post, is = pre ++ i :: post →
      I pre (exec step s pre).1 (exec step s pre).2 →
      I (pre ++ [i]) (step (exec step s pre).1 i).1
        ((exec step s pre).2 ++ (step (exec step s pre).1 i).2)) :
    I is (exec step s is).1 (exec step s is).2 := by
  induction is using List.reverseRecOn with
  | nil => exact h₀
  | append_singleton is i ih =>
    rw [exec_concat]
    refine hstep is i [] rfl (ih fun pre j post he => hstep pre j (post ++ [i]) ?_)
    rw [he, List.append_assoc, List.cons_append]

/-- Two machines fed related inputs from related states produce related
outputs when each pair of steps does. -/
theorem exec_related {step' : τ → ι' → τ × List ο} {R : σ → τ → Prop} {Q : ι → ι' → Prop}
    (hstep : ∀ s t i j, R s t → Q i j →
      R (step s i).1 (step' t j).1 ∧ (step s i).2 = (step' t j).2)
    {s : σ} {t : τ} (h : R s t) {is : List ι} {js : List ι'} (hq : List.Forall₂ Q is js) :
    R (exec step s is).1 (exec step' t js).1 ∧ (exec step s is).2 = (exec step' t js).2 := by
  induction hq generalizing s t with
  | nil => exact ⟨h, rfl⟩
  | cons hij _ ih =>
    obtain ⟨h', ho⟩ := hstep _ _ _ _ h hij
    obtain ⟨hr, ho'⟩ := ih h'
    exact ⟨hr, by rw [exec_cons, exec_cons, ho, ho']⟩

end VeyraCam.Machine
