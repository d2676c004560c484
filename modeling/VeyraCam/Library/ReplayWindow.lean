import Mathlib.Data.Set.Insert
import Mathlib.Data.BitVec
import Mathlib.Order.Bounds.Basic

/-! # Anti-replay windows

A receiver that numbers packets accepts each number once and forgets those that
fall a window behind the highest accepted. The window is specified on the set
of accepted numbers, and represented by the highest one with a bitmap whose bit
`d` records the number `d` below it.
-/

namespace VeyraCam.ReplayWindow

variable {w : ℕ} {A : Set ℕ} {s h : ℕ} {bitmap : BitVec w}

/-- A number may be accepted when it is new and less than `w` below every accepted one. -/
def Admissible (w : ℕ) (A : Set ℕ) (s : ℕ) : Prop :=
  s ∉ A ∧ ∀ a ∈ A, a < s + w

theorem admissible_empty (w s : ℕ) : Admissible w ∅ s := ⟨id, fun _ h => h.elim⟩

theorem admissible_iff_of_isGreatest (hm : IsGreatest A h) :
    Admissible w A s ↔ s ∉ A ∧ h < s + w := by
  refine and_congr_right fun _ => ⟨fun hA => hA h hm.1, fun hlt a ha => ?_⟩
  exact (hm.2 ha).trans_lt hlt

/-- The highest accepted number and a bitmap of the `w` numbers up to it. -/
structure Represents (A : Set ℕ) (highest : ℕ) (bitmap : BitVec w) : Prop where
  mem : highest ∈ A
  le : ∀ a ∈ A, a ≤ highest
  bit : ∀ d < w, bitmap.getLsbD d = true ↔ d ≤ highest ∧ highest - d ∈ A

theorem Represents.isGreatest (r : Represents A h bitmap) : IsGreatest A h := ⟨r.mem, r.le⟩

theorem represents_singleton (hw : 0 < w) (s : ℕ) : Represents {s} s (1#w) := by
  refine ⟨rfl, fun a ha => (Set.mem_singleton_iff.mp ha).le, fun d hd => ?_⟩
  simp only [BitVec.getLsbD_one, Set.mem_singleton_iff, Bool.and_eq_true, decide_eq_true_eq]
  omega

theorem Represents.admissible_of_lt (r : Represents A h bitmap) (hs : h < s) :
    Admissible w A s := by
  refine ⟨fun hm => ?_, fun a ha => ?_⟩
  · exact absurd (r.le s hm) (by omega)
  · have := r.le a ha; omega

/-- Up to the highest accepted number the bitmap decides. -/
theorem Represents.admissible_iff (r : Represents A h bitmap) (hs : s ≤ h) :
    Admissible w A s ↔ h - s < w ∧ bitmap.getLsbD (h - s) = false := by
  have hd : h - (h - s) = s := by omega
  constructor
  · rintro ⟨hn, hb⟩
    have hlt : h - s < w := by have := hb h r.mem; omega
    refine ⟨hlt, Bool.eq_false_iff.mpr fun ht => hn ?_⟩
    have := ((r.bit _ hlt).mp ht).2
    rwa [hd] at this
  · rintro ⟨hlt, hf⟩
    refine ⟨fun hm => ?_, fun a ha => by have := r.le a ha; omega⟩
    have ht := (r.bit _ hlt).mpr ⟨by omega, by rwa [hd]⟩
    simp [hf] at ht

theorem Represents.advance (r : Represents A h bitmap) (hw : 0 < w) (hs : h < s) :
    Represents (insert s A) s (bitmap <<< (s - h) ||| 1#w) := by
  refine ⟨Set.mem_insert s A, ?_, fun d hd => ?_⟩
  · rintro a (rfl | ha)
    · exact le_rfl
    · have := r.le a ha; omega
  · simp only [BitVec.getLsbD_or, BitVec.getLsbD_shiftLeft, BitVec.getLsbD_one, Bool.or_eq_true,
      Bool.and_eq_true, decide_eq_true_eq, Bool.not_eq_true', decide_eq_false_iff_not,
      Set.mem_insert_iff]
    constructor
    · rintro (⟨⟨-, hge⟩, hb⟩ | ⟨-, rfl⟩)
      · obtain ⟨hle, hm⟩ := (r.bit _ (by omega)).mp hb
        refine ⟨by omega, .inr ?_⟩
        rwa [show s - d = h - (d - (s - h)) by omega]
      · exact ⟨by omega, .inl (by omega)⟩
    · rintro ⟨hle, he | hm⟩
      · exact .inr ⟨hw, by omega⟩
      · have hlt := r.le _ hm
        refine .inl ⟨⟨hd, by omega⟩, (r.bit _ (by omega)).mpr ⟨by omega, ?_⟩⟩
        rwa [show h - (d - (s - h)) = s - d by omega]

theorem Represents.behind (r : Represents A h bitmap) (hs : s ≤ h) (hlt : h - s < w) :
    Represents (insert s A) h (bitmap ||| 1#w <<< (h - s)) := by
  refine ⟨.inr r.mem, ?_, fun d hd => ?_⟩
  · rintro a (rfl | ha)
    · exact hs
    · exact r.le a ha
  · simp only [BitVec.getLsbD_or, BitVec.getLsbD_shiftLeft, BitVec.getLsbD_one, Bool.or_eq_true,
      Bool.and_eq_true, decide_eq_true_eq, Bool.not_eq_true', decide_eq_false_iff_not,
      Set.mem_insert_iff, r.bit d hd]
    constructor
    · rintro (⟨hle, hm⟩ | ⟨⟨-, hge⟩, -, he⟩)
      · exact ⟨hle, .inr hm⟩
      · exact ⟨by omega, .inl (by omega)⟩
    · rintro ⟨hle, he | hm⟩
      · exact .inr ⟨⟨hd, by omega⟩, by omega, by omega⟩
      · exact .inl ⟨hle, hm⟩

end VeyraCam.ReplayWindow
