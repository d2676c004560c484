import Mathlib.Data.Int.Log
import Mathlib.Data.NNRat.Floor
import Mathlib.Tactic.Linarith
import Mathlib.Tactic.Qify

/-! # Binary floating-point numbers

Non-negative floating-point numbers as the rationals they stand for. Every
operation rounds its exact result to the nearest number with a given count of
binary digits, ties to even. Exponents are not bounded: overflow and subnormal
numbers are left out.
-/

namespace VeyraCam.BinaryFloat

/-- The nearest natural number, ties to even. -/
def roundHalfEven (x : ℚ≥0) : ℕ :=
  let n := ⌊x⌋₊
  if x < n + 1 / 2 then n
  else if n + 1 / 2 < x then n + 1
  else n + n % 2

/-- The unit in the last of `p` binary digits. -/
def ulp (p : ℕ) (x : ℚ≥0) : ℚ≥0 := 2 ^ (Int.log 2 x + 1 - p)

/-- The nearest number with `p` binary digits. -/
def nearest (p : ℕ) (x : ℚ≥0) : ℚ≥0 := roundHalfEven (x / ulp p x) * ulp p x

/-- The number with one decimal place, in units of that place. -/
def tenths (x : ℚ≥0) : ℕ := roundHalfEven (10 * x)

variable {p : ℕ} {x y : ℚ≥0}

/-! ## Rounding to a natural number -/

theorem roundHalfEven_le (x : ℚ≥0) : roundHalfEven x ≤ x + 1 / 2 := by
  have hfloor : (⌊x⌋₊ : ℚ≥0) ≤ x := Nat.floor_le zero_le
  have hmod : ((⌊x⌋₊ % 2 : ℕ) : ℚ≥0) ≤ 1 := by
    exact_mod_cast Nat.le_of_lt_succ (Nat.mod_lt _ two_pos)
  simp only [roundHalfEven]
  split_ifs with hlt hgt
  · exact hfloor.trans le_self_add
  · push_cast
    qify at *
    linarith
  · push_cast
    qify at *
    linarith

theorem le_roundHalfEven (x : ℚ≥0) : x ≤ roundHalfEven x + 1 / 2 := by
  have hfloor : x < ⌊x⌋₊ + 1 := Nat.lt_floor_add_one x
  simp only [roundHalfEven]
  split_ifs with hlt hgt
  · exact hlt.le
  · push_cast
    exact hfloor.le.trans le_self_add
  · push_cast
    exact (not_lt.mp hgt).trans (add_le_add_left le_self_add _)

theorem roundHalfEven_le_iff {n : ℕ} (hn : Even n) : roundHalfEven x ≤ n ↔ x ≤ n + 1 / 2 := by
  have hfloor : (⌊x⌋₊ : ℚ≥0) ≤ x := Nat.floor_le zero_le
  constructor
  · intro h
    have hle : (roundHalfEven x : ℚ≥0) ≤ n := by exact_mod_cast h
    exact (le_roundHalfEven x).trans (add_le_add_left hle _)
  · intro h
    have hround (m : ℕ) (hm : m + 1 / 2 ≤ x) : m ≤ n := by
      have hle : (m : ℚ≥0) ≤ n := le_of_add_le_add_right (hm.trans h)
      exact_mod_cast hle
    simp only [roundHalfEven]
    split_ifs with hlt hgt
    · by_contra hcon
      have hsucc : ((n + 1 : ℕ) : ℚ≥0) ≤ ⌊x⌋₊ := by exact_mod_cast not_le.mp hcon
      push_cast at hsucc
      qify at *
      linarith
    · by_contra hcon
      have hle : n ≤ ⌊x⌋₊ := by omega
      have hle : (n : ℚ≥0) ≤ ⌊x⌋₊ := by exact_mod_cast hle
      qify at *
      linarith
    · have hle : ⌊x⌋₊ ≤ n := hround _ (not_lt.mp hlt)
      obtain ⟨m, rfl⟩ := hn
      omega

theorem roundHalfEven_eq_zero_iff : roundHalfEven x = 0 ↔ x ≤ 1 / 2 := by
  have hzero := roundHalfEven_le_iff (x := x) (n := 0) Even.zero
  rwa [Nat.le_zero, Nat.cast_zero, zero_add] at hzero

theorem le_roundHalfEven_of_natCast_le {n : ℕ} (h : n ≤ x) : n ≤ roundHalfEven x := by
  have hle : n ≤ ⌊x⌋₊ := Nat.le_floor h
  simp only [roundHalfEven]
  split_ifs <;> omega

theorem tenths_eq_zero_iff : tenths x = 0 ↔ x ≤ 1 / 20 := by
  have htenth : (1 / 2 : ℚ≥0) / 10 = 1 / 20 := by norm_num
  rw [tenths, roundHalfEven_eq_zero_iff, ← le_div_iff₀' (by norm_num), htenth]

/-! ## Rounding to binary digits -/

theorem ulp_pos (p : ℕ) (x : ℚ≥0) : 0 < ulp p x := zpow_pos two_pos _

theorem nearest_zero (p : ℕ) : nearest p 0 = 0 := by
  rw [nearest, zero_div, roundHalfEven_eq_zero_iff.mpr zero_le, Nat.cast_zero, zero_mul]

theorem ulp_mul_pow (p : ℕ) (x : ℚ≥0) : ulp p x * 2 ^ p = 2 ^ (Int.log 2 x + 1) := by
  rw [ulp, ← zpow_natCast, ← zpow_add₀ two_ne_zero, sub_add_cancel]

theorem zpow_log_le_nearest (hp : 0 < p) (hx : 0 < x) : 2 ^ Int.log 2 x ≤ nearest p x := by
  obtain ⟨p, rfl⟩ := Nat.exists_eq_succ_of_ne_zero hp.ne'
  have hpow : ((2 ^ p : ℕ) : ℚ≥0) * ulp (p + 1) x = 2 ^ Int.log 2 x := by
    have hmul := ulp_mul_pow (p + 1) x
    rw [pow_succ, ← mul_assoc, zpow_add_one₀ two_ne_zero] at hmul
    rw [Nat.cast_pow, Nat.cast_ofNat, mul_comm]
    exact mul_right_cancel₀ two_ne_zero hmul
  have hle : ((2 ^ p : ℕ) : ℚ≥0) ≤ x / ulp (p + 1) x := by
    rw [le_div_iff₀ (ulp_pos _ x), hpow]
    exact Int.zpow_log_le_self (by decide) hx
  have hround : ((2 ^ p : ℕ) : ℚ≥0) ≤ roundHalfEven (x / ulp (p + 1) x) := by
    exact_mod_cast le_roundHalfEven_of_natCast_le hle
  calc (2 : ℚ≥0) ^ Int.log 2 x = ((2 ^ p : ℕ) : ℚ≥0) * ulp (p + 1) x := hpow.symm
    _ ≤ nearest (p + 1) x := mul_le_mul_left hround _

theorem nearest_le_zpow_log (hp : 0 < p) (x : ℚ≥0) : nearest p x ≤ 2 ^ (Int.log 2 x + 1) := by
  have hlt : x / ulp p x ≤ (2 ^ p : ℕ) := by
    rw [div_le_iff₀ (ulp_pos p x), Nat.cast_pow, Nat.cast_ofNat, mul_comm, ulp_mul_pow]
    exact (Int.lt_zpow_succ_log_self (by decide) x).le
  have heven : Even (2 ^ p) := (Nat.even_pow' hp.ne').mpr even_two
  have hround : (roundHalfEven (x / ulp p x) : ℚ≥0) ≤ (2 ^ p : ℕ) := by
    exact_mod_cast (roundHalfEven_le_iff heven).mpr (hlt.trans le_self_add)
  calc nearest p x ≤ ((2 ^ p : ℕ) : ℚ≥0) * ulp p x := mul_le_mul_left hround _
    _ = 2 ^ (Int.log 2 x + 1) := by
      rw [Nat.cast_pow, Nat.cast_ofNat, mul_comm, ulp_mul_pow]

theorem nearest_pos (hp : 0 < p) (hx : 0 < x) : 0 < nearest p x :=
  (zpow_pos two_pos _).trans_le (zpow_log_le_nearest hp hx)

/-- What is rounded down to a number that lies between `n` and `n + 1` units. -/
theorem nearest_le_iff {n : ℕ} (hn : Even n) (hlow : 2 ^ p ≤ 2 * n) (hhigh : n < 2 ^ p) {e : ℤ}
    {b : ℚ≥0} (hb : n * 2 ^ e ≤ b) (hb' : b < (n + 1) * 2 ^ e) :
    nearest p x ≤ b ↔ x ≤ (n + 1 / 2) * 2 ^ e := by
  have hpos : (0 : ℚ≥0) < 2 ^ e := zpow_pos two_pos e
  have hp : 0 < p := by
    rcases Nat.eq_zero_or_pos p with rfl | hp
    · omega
    · exact hp
  have hhalf : (n : ℚ≥0) * 2 ^ e ≤ (n + 1 / 2) * 2 ^ e := mul_le_mul_left le_self_add _
  rcases eq_zero_or_pos x with rfl | hx
  · rw [nearest_zero]
    exact iff_of_true zero_le zero_le
  rcases lt_trichotomy (Int.log 2 x + 1) (e + p) with hlt | heq | hgt
  · have hle : (2 : ℚ≥0) ^ (Int.log 2 x + 1) ≤ n * 2 ^ e := by
      have hlow : (2 : ℚ≥0) ^ p ≤ 2 * n := by exact_mod_cast hlow
      have hstep : (2 : ℚ≥0) ^ (Int.log 2 x + 1) * 2 ≤ 2 ^ (e + p) := by
        rw [← zpow_add_one₀ two_ne_zero]
        exact zpow_le_zpow_right₀ one_le_two hlt
      rw [zpow_add₀ two_ne_zero e, zpow_natCast] at hstep
      refine le_of_mul_le_mul_right (hstep.trans ?_) two_pos
      calc (2 : ℚ≥0) ^ e * 2 ^ p ≤ 2 ^ e * (2 * n) := mul_le_mul_right hlow _
        _ = n * 2 ^ e * 2 := by ring
    have hxlt := Int.lt_zpow_succ_log_self (b := 2) (by decide) x
    exact iff_of_true ((nearest_le_zpow_log hp x).trans (hle.trans hb))
      (hxlt.le.trans (hle.trans hhalf))
  · have hulp : ulp p x = 2 ^ e := by rw [ulp, heq, add_sub_cancel_right]
    rw [nearest, hulp, ← div_le_iff₀ hpos, ← roundHalfEven_le_iff hn]
    constructor
    · intro h
      have hlt : (roundHalfEven (x / 2 ^ e) : ℚ≥0) < n + 1 :=
        lt_of_mul_lt_mul_right (h.trans_lt hb') zero_le
      exact Nat.le_of_lt_succ (by exact_mod_cast hlt)
    · intro h
      have hle : (roundHalfEven (x / 2 ^ e) : ℚ≥0) ≤ n := by exact_mod_cast h
      exact (mul_le_mul_left hle _).trans hb
  · have hge : (n + 1) * 2 ^ e ≤ (2 : ℚ≥0) ^ Int.log 2 x := by
      have hhigh : (n + 1 : ℚ≥0) ≤ 2 ^ p := by exact_mod_cast hhigh
      calc (n + 1) * 2 ^ e ≤ (2 : ℚ≥0) ^ p * 2 ^ e := mul_le_mul_left hhigh _
        _ = 2 ^ (e + p) := by rw [zpow_add₀ two_ne_zero, zpow_natCast, mul_comm]
        _ ≤ 2 ^ Int.log 2 x := zpow_le_zpow_right₀ one_le_two (Int.lt_add_one_iff.mp hgt)
    have hhalf : (n + 1 / 2) * (2 : ℚ≥0) ^ e < (n + 1) * 2 ^ e :=
      mul_lt_mul_of_pos_right (add_lt_add_right (by norm_num) _) hpos
    exact iff_of_false
      (not_le.mpr (hb'.trans_le (hge.trans (zpow_log_le_nearest hp hx))))
      (not_le.mpr (hhalf.trans_le (hge.trans (Int.zpow_log_le_self (by decide) hx))))

/-! ## Relative errors -/

/-- The two numbers differ by at most the given factor. -/
def Within (c x y : ℚ≥0) : Prop := x ≤ c * y ∧ y ≤ c * x

def growth (p : ℕ) : ℚ≥0 := 1 + (2 ^ p)⁻¹

theorem one_le_growth (p : ℕ) : 1 ≤ growth p := le_self_add

namespace Within

variable {c c' x' y' z : ℚ≥0}

theorem refl (x : ℚ≥0) : Within 1 x x := ⟨(one_mul x).ge, (one_mul x).ge⟩

theorem mono (h : Within c x y) (hc : c ≤ c') : Within c' x y :=
  ⟨h.1.trans (mul_le_mul_left hc y), h.2.trans (mul_le_mul_left hc x)⟩

theorem trans (h : Within c x y) (h' : Within c' y z) : Within (c * c') x z := by
  constructor
  · calc x ≤ c * y := h.1
      _ ≤ c * (c' * z) := mul_le_mul_right h'.1 c
      _ = c * c' * z := (mul_assoc c c' z).symm
  · calc z ≤ c' * y := h'.2
      _ ≤ c' * (c * x) := mul_le_mul_right h.2 c'
      _ = c * c' * x := by rw [← mul_assoc, mul_comm c']

theorem add (h : Within c x y) (h' : Within c x' y') : Within c (x + x') (y + y') := by
  constructor
  · rw [mul_add]
    exact add_le_add h.1 h'.1
  · rw [mul_add]
    exact add_le_add h.2 h'.2

theorem div (h : Within c x y) (z : ℚ≥0) : Within c (x / z) (y / z) := by
  constructor
  · rw [← mul_div_assoc]
    exact div_le_div_of_nonneg_right h.1 zero_le
  · rw [← mul_div_assoc]
    exact div_le_div_of_nonneg_right h.2 zero_le

end Within

theorem within_nearest (hp : 0 < p) (x : ℚ≥0) : Within (growth p) x (nearest p x) := by
  rcases eq_zero_or_pos x with rfl | hx
  · rw [nearest_zero]
    exact (Within.refl 0).mono (one_le_growth p)
  have hhalf : ulp p x / 2 = 2 ^ Int.log 2 x * (2 ^ p)⁻¹ := by
    have hmul := ulp_mul_pow p x
    rw [zpow_add_one₀ two_ne_zero] at hmul
    rw [← div_eq_mul_inv, div_eq_div_iff two_ne_zero (pow_ne_zero p two_ne_zero), hmul]
  have hround (z : ℚ≥0) (hz : 2 ^ Int.log 2 x ≤ z) : z + ulp p x / 2 ≤ growth p * z := by
    rw [hhalf, growth, add_mul, one_mul, mul_comm (2 ^ p)⁻¹]
    exact add_le_add_right (mul_le_mul_left hz _) z
  have hcancel : x / ulp p x * ulp p x = x := div_mul_cancel₀ x (ulp_pos p x).ne'
  constructor
  · calc x = x / ulp p x * ulp p x := hcancel.symm
      _ ≤ (roundHalfEven (x / ulp p x) + 1 / 2) * ulp p x :=
        mul_le_mul_left (le_roundHalfEven _) _
      _ = nearest p x + ulp p x / 2 := by rw [nearest]; ring
      _ ≤ growth p * nearest p x := hround _ (zpow_log_le_nearest hp hx)
  · calc nearest p x ≤ (x / ulp p x + 1 / 2) * ulp p x :=
        mul_le_mul_left (roundHalfEven_le _) _
      _ = x + ulp p x / 2 := by rw [add_mul, hcancel]; ring
      _ ≤ growth p * x := hround _ (Int.zpow_log_le_self (by decide) hx)

theorem Within.nearest {c : ℚ≥0} (hp : 0 < p) (h : Within c x y) :
    Within (c * growth p) x (nearest p y) :=
  h.trans (within_nearest hp y)

/-- A sum that is rounded after every addition. -/
theorem within_foldl {α : Type*} (hp : 0 < p) {c : ℚ≥0} {f g : α → ℚ≥0}
    (h : ∀ a, Within c (f a) (g a)) (as : List α) {d x y : ℚ≥0} (hcd : c ≤ d)
    (hxy : Within d x y) :
    Within (d * growth p ^ as.length) (x + (as.map f).sum)
      (as.foldl (fun sum a => nearest p (sum + g a)) y) := by
  induction as generalizing d x y with
  | nil =>
    rw [List.length_nil, pow_zero, mul_one, List.map_nil, List.sum_nil, add_zero]
    exact hxy
  | cons a as ih =>
    have hstep := (hxy.add ((h a).mono hcd)).nearest hp
    have hgrow : d ≤ d * growth p := le_mul_of_one_le_right zero_le (one_le_growth p)
    rw [List.length_cons, pow_succ', ← mul_assoc, List.map_cons, List.sum_cons, ← add_assoc]
    exact ih (hcd.trans hgrow) hstep

end VeyraCam.BinaryFloat
