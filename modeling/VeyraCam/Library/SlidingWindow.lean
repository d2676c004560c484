import Mathlib.Data.List.Induction
import Mathlib.Data.List.TakeWhile

/-! # Sliding windows

A window over a sequence of entries in order: each new entry goes to its end, and
the entries at its front that are then out of date are dropped. What is left is
everything that is not out of date when the last entry comes.
-/

namespace VeyraCam.SlidingWindow

variable {α : Type*} (stale : α → α → Bool)

/-- Add an entry, and drop those at the front that are stale by then. -/
def slide (window : List α) (entry : α) : List α :=
  (window ++ [entry]).dropWhile (stale entry)

/-- In a sequence in order, entries grow stale one after the other and remain so. -/
structure Ages (r : α → α → Prop) : Prop where
  fresh : ∀ a, stale a a = false
  older : ∀ {a b c}, r a b → r b c → stale c b = true → stale c a = true
  later : ∀ {a b c}, r a b → r b c → stale b a = true → stale c a = true

variable {stale} {r : α → α → Prop}

theorem dropWhile_eq_filter {p : α → Bool} {l : List α}
    (h : l.Pairwise fun a b => p b = true → p a = true) :
    l.dropWhile p = l.filter fun a => !p a := by
  induction l with
  | nil => rfl
  | cons a l ih =>
    obtain ⟨ha, hl⟩ := List.pairwise_cons.mp h
    by_cases hp : p a = true
    · rw [List.dropWhile_cons_of_pos hp, List.filter_cons_of_neg (by simp [hp]), ih hl]
    · have hkeep : ∀ b ∈ l, (!p b) = true := by
        rintro b hb
        simpa using fun hpb => hp (ha b hb hpb)
      rw [List.dropWhile_cons_of_neg hp, List.filter_cons_of_pos (by simpa using hp),
        List.filter_eq_self.mpr hkeep]

/-- The window holds what is not stale at the time of the last entry. -/
theorem foldl_slide (h : Ages stale r) {entries : List α} {last : α}
    (hsorted : (entries ++ [last]).Pairwise r) :
    (entries ++ [last]).foldl (slide stale) [] =
      (entries ++ [last]).filter fun entry => !stale last entry := by
  induction entries using List.reverseRecOn generalizing last with
  | nil =>
    rw [List.nil_append, List.foldl_cons, List.foldl_nil, slide, List.nil_append]
    simp [h.fresh]
  | append_singleton entries b ih =>
    obtain ⟨hinit, -, hlast⟩ := List.pairwise_append.mp hsorted
    have hb : r b last := hlast b (by simp) last (List.mem_singleton_self last)
    -- what was stale before is stale now
    have hstale : ∀ a ∈ entries ++ [b], (!stale last a && !stale b a) = !stale last a := by
      rintro a ha
      rcases List.mem_append.mp ha with ha | ha
      · have hab := (List.pairwise_append.mp hinit).2.2 a ha b (List.mem_singleton_self b)
        cases hba : stale b a with
        | false => simp
        | true => simp [h.later hab hb hba]
      · obtain rfl := List.mem_singleton.mp ha
        simp [h.fresh]
    have hpairwise : ((entries ++ [b]).filter (fun a => !stale b a) ++ [last]).Pairwise
        fun a c => stale last c = true → stale last a = true := by
      refine List.pairwise_append.mpr ⟨?_, List.pairwise_singleton _ _, ?_⟩
      · refine (hinit.filter _).imp_of_mem ?_
        rintro a c - hc hac hstale
        exact h.older hac (hlast c (List.mem_filter.mp hc).1 last (by simp)) hstale
      · rintro a - c hc hstale
        obtain rfl := List.mem_singleton.mp hc
        cases (h.fresh c).symm.trans hstale
    rw [List.foldl_append, ih hinit, List.foldl_cons, List.foldl_nil, slide,
      dropWhile_eq_filter hpairwise, List.filter_append, List.filter_filter,
      List.filter_congr hstale, ← List.filter_append]

end VeyraCam.SlidingWindow
