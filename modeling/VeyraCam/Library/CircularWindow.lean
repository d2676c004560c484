import Mathlib.Data.List.Basic
import Mathlib.Data.Nat.ModEq
import Mathlib.Logic.Function.Basic

/-! # Windows of a circular array

An array of `n` slots is read round and round: position `k` is the slot `k`
modulo `n`. A window is the list of the values in consecutive positions. Within
one round positions are different slots, so writing to a position just before or
just after a window leaves it as it is.
-/

namespace VeyraCam.CircularWindow

variable {n : ℕ} [NeZero n] {α : Type*} {slots : Fin n → α} {lo : ℕ} {x : α}

def window (slots : Fin n → α) (lo k : ℕ) : List α :=
  (List.range k).map fun i => slots (.ofNat n (lo + i))

@[simp] theorem length_window (slots : Fin n → α) (lo k : ℕ) : (window slots lo k).length = k := by
  simp [window]

@[simp] theorem window_zero (slots : Fin n → α) (lo : ℕ) : window slots lo 0 = [] := rfl

theorem window_succ (slots : Fin n → α) (lo k : ℕ) :
    window slots lo (k + 1) = slots (.ofNat n lo) :: window slots (lo + 1) k := by
  simp only [window, List.range_succ_eq_map, List.map_cons, List.map_map, Nat.add_zero]
  refine congrArg _ (List.map_congr_left fun i _ => ?_)
  rw [Function.comp, Nat.succ_eq_add_one, Nat.add_right_comm, Nat.add_assoc]

theorem window_concat (slots : Fin n → α) (lo k : ℕ) :
    window slots lo (k + 1) = window slots lo k ++ [slots (.ofNat n (lo + k))] := by
  simp [window, List.range_succ]

theorem ofNat_congr {i j : ℕ} (h : i % n = j % n) : Fin.ofNat n i = .ofNat n j :=
  Fin.ext h

@[simp] theorem ofNat_val_add (i j : ℕ) :
    Fin.ofNat n ((Fin.ofNat n i : Fin n) + j) = .ofNat n (i + j) :=
  ofNat_congr (Nat.mod_add_mod i n j)

theorem window_ofNat (slots : Fin n → α) (lo k : ℕ) :
    window slots (Fin.ofNat n lo : Fin n) k = window slots lo k := by
  simp only [window, ofNat_val_add]

theorem ofNat_add_inj {i j : ℕ} (hi : i < n) (hj : j < n) :
    Fin.ofNat n (lo + i) = .ofNat n (lo + j) ↔ i = j := by
  constructor
  · intro h
    have hmod : Nat.ModEq n i j := Nat.ModEq.add_left_cancel' lo (congrArg Fin.val h)
    rwa [Nat.ModEq, Nat.mod_eq_of_lt hi, Nat.mod_eq_of_lt hj] at hmod
  · rintro rfl
    rfl

theorem window_congr {slots' : Fin n → α} {k : ℕ}
    (h : ∀ i < k, slots (.ofNat n (lo + i)) = slots' (.ofNat n (lo + i))) :
    window slots lo k = window slots' lo k :=
  List.map_congr_left fun i hi => h i (List.mem_range.mp hi)

theorem window_update_behind {k : ℕ} (hk : k < n) (x : α) :
    window (Function.update slots (.ofNat n (lo + k)) x) lo k = window slots lo k := by
  refine window_congr fun i hi => Function.update_of_ne ?_ _ _
  rw [Ne, ofNat_add_inj (Nat.lt_trans hi hk) hk]
  exact Nat.ne_of_lt hi

theorem window_update_before {k : ℕ} (hk : k < n) (x : α) :
    window (Function.update slots (.ofNat n lo) x) (lo + 1) k = window slots (lo + 1) k := by
  refine window_congr fun i hi => Function.update_of_ne ?_ _ _
  intro hsame
  rw [Nat.add_assoc] at hsame
  have hzero := (ofNat_add_inj (Nat.lt_of_le_of_lt (by omega) hk) (Nat.pos_of_neZero n)).mp hsame
  omega

theorem window_update_concat {k : ℕ} (hk : k < n) (x : α) :
    window (Function.update slots (.ofNat n (lo + k)) x) lo (k + 1) = window slots lo k ++ [x] := by
  rw [window_concat, window_update_behind hk, Function.update_self]

end VeyraCam.CircularWindow
