import Mathlib.Data.List.Induction
import Mathlib.Order.Lattice

/-! # The first of the best

A loop over a list that keeps the candidate of the least score below a bound, and
of several such the one it meets first.
-/

namespace VeyraCam

variable {α β : Type*} [LinearOrder β]

/-- Keep a candidate that scores less than the best so far; not every element is a candidate. -/
def keepLeast (score : α → Option β) (best : Option α × β) (a : α) : Option α × β :=
  match score a with
  | none => best
  | some s => if s < best.2 then (some a, s) else best

/-- An element of the least score below a bound, which those before it do not reach. -/
structure IsFirstLeast (score : α → Option β) (bound : β) (l : List α) (a : α) (s : β) : Prop where
  score_eq : score a = some s
  lt_bound : s < bound
  split : ∃ l₁ l₂, l = l₁ ++ a :: l₂ ∧ (∀ x ∈ l₁, ∀ t ∈ score x, s < t) ∧
    ∀ x ∈ l₂, ∀ t ∈ score x, s ≤ t

variable {score : α → Option β} {bound s : β} {l : List α} {a : α}

theorem IsFirstLeast.mem (h : IsFirstLeast score bound l a s) : a ∈ l := by
  obtain ⟨l₁, l₂, rfl, -⟩ := h.split
  exact List.mem_append_right _ List.mem_cons_self

theorem IsFirstLeast.le (h : IsFirstLeast score bound l a s) :
    ∀ x ∈ l, ∀ t ∈ score x, s ≤ t := by
  obtain ⟨l₁, l₂, rfl, hbefore, hafter⟩ := h.split
  rintro x hx t ht
  rcases List.mem_append.mp hx with hx | hx
  · exact (hbefore x hx t ht).le
  rcases List.mem_cons.mp hx with rfl | hx
  · exact (Option.some.inj (h.score_eq.symm.trans ht)).le
  · exact hafter x hx t ht

/-- In a list that is ordered by a relation, the element stands before those of its score. -/
theorem IsFirstLeast.rel_of_score_eq {r : α → α → Prop} (h : IsFirstLeast score bound l a s)
    (hl : l.Pairwise r) {x : α} (hx : x ∈ l) (hs : score x = some s) : x = a ∨ r a x := by
  obtain ⟨l₁, l₂, rfl, hbefore, -⟩ := h.split
  rcases List.mem_append.mp hx with hx | hx
  · exact absurd (hbefore x hx s hs) (lt_irrefl s)
  rcases List.mem_cons.mp hx with rfl | hx
  · exact .inl rfl
  · exact .inr (List.rel_of_pairwise_cons (List.pairwise_append.mp hl).2.1 hx)

theorem isFirstLeast_concat_self (ha : score a = some s) (hs : s < bound)
    (hl : ∀ x ∈ l, ∀ t ∈ score x, s < t) : IsFirstLeast score bound (l ++ [a]) a s :=
  ⟨ha, hs, l, [], rfl, hl, by simp⟩

theorem IsFirstLeast.concat (h : IsFirstLeast score bound l a s) {x : α}
    (hx : ∀ t ∈ score x, s ≤ t) : IsFirstLeast score bound (l ++ [x]) a s := by
  obtain ⟨hscore, hlt, l₁, l₂, rfl, hbefore, hafter⟩ := h
  refine ⟨hscore, hlt, l₁, l₂ ++ [x], by simp, hbefore, ?_⟩
  rintro y hy t ht
  rcases List.mem_append.mp hy with hy | hy
  · exact hafter y hy t ht
  · rw [List.mem_singleton] at hy
    exact hx t (hy ▸ ht)

/-- The loop ends with the first of the best, or without a candidate below the bound. -/
theorem foldl_keepLeast (score : α → Option β) (bound : β) (l : List α) :
    (l.foldl (keepLeast score) (none, bound) = (none, bound) ∧
      ∀ a ∈ l, ∀ t ∈ score a, bound ≤ t) ∨
    ∃ a s, l.foldl (keepLeast score) (none, bound) = (some a, s) ∧
      IsFirstLeast score bound l a s := by
  induction l using List.reverseRecOn with
  | nil => exact .inl ⟨rfl, by simp⟩
  | append_singleton l x ih =>
    simp only [List.foldl_append, List.foldl_cons, List.foldl_nil]
    rcases ih with ⟨hfold, hl⟩ | ⟨a, s, hfold, h⟩
    · rw [hfold, keepLeast]
      cases hx : score x with
      | none =>
        refine .inl ⟨rfl, ?_⟩
        rw [List.forall_mem_append]
        exact ⟨hl, by simp [hx]⟩
      | some t =>
        dsimp only
        split_ifs with ht
        · refine .inr ⟨x, t, rfl, isFirstLeast_concat_self hx ht fun y hy u hu => ?_⟩
          exact ht.trans_le (hl y hy u hu)
        · refine .inl ⟨rfl, ?_⟩
          rw [List.forall_mem_append]
          exact ⟨hl, by simpa [hx] using ht⟩
    · rw [hfold, keepLeast]
      refine .inr ?_
      cases hx : score x with
      | none => exact ⟨a, s, rfl, h.concat (by simp [hx])⟩
      | some t =>
        dsimp only
        split_ifs with ht
        · refine ⟨x, t, rfl, isFirstLeast_concat_self hx (ht.trans h.lt_bound) fun y hy u hu => ?_⟩
          exact ht.trans_le (h.le y hy u hu)
        · exact ⟨a, s, rfl, h.concat (by simpa [hx] using ht)⟩

end VeyraCam
