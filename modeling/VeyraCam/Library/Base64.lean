import Mathlib.Data.List.Basic

/-! # Base64

The standard alphabet with padding: three bytes are written as four digits of
six bits each. A decoder that takes nothing but such text undoes the encoder.
-/

namespace VeyraCam.Base64

def digit (n : ℕ) : Char :=
  if n < 26 then .ofNat (n + 65)
  else if n < 52 then .ofNat (n + 71)
  else if n < 62 then .ofNat (n - 4)
  else if n = 62 then '+'
  else '/'

def value? (c : Char) : Option ℕ :=
  let n := c.toNat
  if 65 ≤ n ∧ n < 91 then some (n - 65)
  else if 97 ≤ n ∧ n < 123 then some (n - 71)
  else if 48 ≤ n ∧ n < 58 then some (n + 4)
  else if n = 43 then some 62
  else if n = 47 then some 63
  else none

def pad : Char := '='

def encode : List UInt8 → List Char
  | [] => []
  | [a] => [digit (a.toNat / 4), digit (a.toNat % 4 * 16), pad, pad]
  | [a, b] =>
    [digit (a.toNat / 4), digit (a.toNat % 4 * 16 + b.toNat / 16), digit (b.toNat % 16 * 4), pad]
  | a :: b :: c :: rest =>
    digit (a.toNat / 4) :: digit (a.toNat % 4 * 16 + b.toNat / 16) ::
      digit (b.toNat % 16 * 4 + c.toNat / 64) :: digit (c.toNat % 64) :: encode rest

/-- The bytes of a text of whole groups, the last of which may be padded. -/
def decode : List Char → Option (List UInt8)
  | [] => some []
  | w :: x :: y :: z :: rest => do
    let i ← value? w
    let j ← value? x
    if y = pad ∧ z = pad ∧ rest = [] then some [.ofNat (i * 4 + j / 16)]
    else
      let k ← value? y
      if z = pad ∧ rest = [] then some [.ofNat (i * 4 + j / 16), .ofNat (j % 16 * 16 + k / 4)]
      else
        let l ← value? z
        let bytes ← decode rest
        some (.ofNat (i * 4 + j / 16) :: .ofNat (j % 16 * 16 + k / 4) ::
          .ofNat (k % 4 * 64 + l) :: bytes)
  | _ => none

theorem value?_digit {n : ℕ} (h : n < 64) : value? (digit n) = some n := by
  revert n
  decide

theorem value?_pad : value? pad = none := rfl

theorem digit_ne_pad {n : ℕ} (h : n < 64) : digit n ≠ pad := by
  intro he
  have hv := value?_digit h
  rw [he, value?_pad] at hv
  cases hv

theorem mem_encode {bs : List UInt8} {c : Char} (h : c ∈ encode bs) :
    c = pad ∨ ∃ n < 64, c = digit n := by
  induction bs using encode.induct with
  | case1 => cases h
  | case2 a =>
    have ha := a.toNat_lt
    simp only [encode, List.mem_cons, List.not_mem_nil, or_false] at h
    rcases h with rfl | rfl | rfl | rfl
    · exact .inr ⟨_, by omega, rfl⟩
    · exact .inr ⟨_, by omega, rfl⟩
    · exact .inl rfl
    · exact .inl rfl
  | case3 a b =>
    have ha := a.toNat_lt
    have hb := b.toNat_lt
    simp only [encode, List.mem_cons, List.not_mem_nil, or_false] at h
    rcases h with rfl | rfl | rfl | rfl
    · exact .inr ⟨_, by omega, rfl⟩
    · exact .inr ⟨_, by omega, rfl⟩
    · exact .inr ⟨_, by omega, rfl⟩
    · exact .inl rfl
  | case4 a b c rest ih =>
    have ha := a.toNat_lt
    have hb := b.toNat_lt
    have hc := c.toNat_lt
    simp only [encode, List.mem_cons] at h
    rcases h with rfl | rfl | rfl | rfl | h
    · exact .inr ⟨_, by omega, rfl⟩
    · exact .inr ⟨_, by omega, rfl⟩
    · exact .inr ⟨_, by omega, rfl⟩
    · exact .inr ⟨_, by omega, rfl⟩
    · exact ih h

theorem forall_mem_encode {P : Char → Prop} (hpad : P pad) (hdigit : ∀ n < 64, P (digit n))
    {bs : List UInt8} : ∀ c ∈ encode bs, P c := by
  intro c hc
  rcases mem_encode hc with rfl | ⟨n, hn, rfl⟩
  · exact hpad
  · exact hdigit n hn

theorem ofNat_eq {a : UInt8} {n : ℕ} (h : n = a.toNat) : UInt8.ofNat n = a := by
  rw [h, UInt8.ofNat_toNat]

theorem decode_encode (bs : List UInt8) : decode (encode bs) = some bs := by
  induction bs using encode.induct with
  | case1 => rfl
  | case2 a =>
    have ha := a.toNat_lt
    have h₁ := value?_digit (n := a.toNat / 4) (by omega)
    have h₂ := value?_digit (n := a.toNat % 4 * 16) (by omega)
    have hbyte := ofNat_eq (a := a) (n := a.toNat / 4 * 4 + a.toNat % 4 * 16 / 16) (by omega)
    simp only [encode, decode, h₁, h₂, and_self, if_true, Option.bind_eq_bind, Option.bind_some,
      hbyte]
  | case3 a b =>
    have ha := a.toNat_lt
    have hb := b.toNat_lt
    have h₁ := value?_digit (n := a.toNat / 4) (by omega)
    have h₂ := value?_digit (n := a.toNat % 4 * 16 + b.toNat / 16) (by omega)
    have h₃ := value?_digit (n := b.toNat % 16 * 4) (by omega)
    have hne := digit_ne_pad (n := b.toNat % 16 * 4) (by omega)
    have hfirst := ofNat_eq (a := a)
      (n := a.toNat / 4 * 4 + (a.toNat % 4 * 16 + b.toNat / 16) / 16) (by omega)
    have hsecond := ofNat_eq (a := b)
      (n := (a.toNat % 4 * 16 + b.toNat / 16) % 16 * 16 + b.toNat % 16 * 4 / 4) (by omega)
    simp only [encode, decode, h₁, h₂, h₃, hne, false_and, if_false, true_and, if_true,
      Option.bind_eq_bind, Option.bind_some, hfirst, hsecond]
  | case4 a b c rest ih =>
    have ha := a.toNat_lt
    have hb := b.toNat_lt
    have hc := c.toNat_lt
    have h₁ := value?_digit (n := a.toNat / 4) (by omega)
    have h₂ := value?_digit (n := a.toNat % 4 * 16 + b.toNat / 16) (by omega)
    have h₃ := value?_digit (n := b.toNat % 16 * 4 + c.toNat / 64) (by omega)
    have h₄ := value?_digit (n := c.toNat % 64) (by omega)
    have hne₃ := digit_ne_pad (n := b.toNat % 16 * 4 + c.toNat / 64) (by omega)
    have hne₄ := digit_ne_pad (n := c.toNat % 64) (by omega)
    have hfirst := ofNat_eq (a := a)
      (n := a.toNat / 4 * 4 + (a.toNat % 4 * 16 + b.toNat / 16) / 16) (by omega)
    have hsecond := ofNat_eq (a := b)
      (n := (a.toNat % 4 * 16 + b.toNat / 16) % 16 * 16 +
        (b.toNat % 16 * 4 + c.toNat / 64) / 4) (by omega)
    have hthird := ofNat_eq (a := c)
      (n := (b.toNat % 16 * 4 + c.toNat / 64) % 4 * 64 + c.toNat % 64) (by omega)
    simp only [encode, decode, h₁, h₂, h₃, h₄, hne₃, hne₄, false_and, if_false, ih,
      Option.bind_eq_bind, Option.bind_some, hfirst, hsecond, hthird]

theorem length_encode (bs : List UInt8) : (encode bs).length = (bs.length + 2) / 3 * 4 := by
  induction bs using encode.induct with
  | case1 => rfl
  | case2 a => simp [encode]
  | case3 a b => simp [encode]
  | case4 a b c rest ih =>
    simp only [encode, List.length_cons, ih]
    omega

theorem isSome_value?_of_decode {cs : List Char} {bs : List UInt8} (h : decode cs = some bs)
    {c : Char} (hc : c ∈ cs) : c = pad ∨ (value? c).isSome = true := by
  induction cs using decode.induct generalizing bs with
  | case1 => cases hc
  | case2 w x y z rest ih =>
    simp only [decode, Option.bind_eq_bind, Option.bind_eq_some_iff] at h
    obtain ⟨i, hw, j, hx, h⟩ := h
    have hw : (value? w).isSome = true := by rw [hw]; rfl
    have hx : (value? x).isSome = true := by rw [hx]; rfl
    by_cases hpad : y = pad ∧ z = pad ∧ rest = []
    · obtain ⟨rfl, rfl, rfl⟩ := hpad
      simp only [List.mem_cons, List.not_mem_nil, or_false] at hc
      rcases hc with rfl | rfl | rfl | rfl
      · exact .inr hw
      · exact .inr hx
      · exact .inl rfl
      · exact .inl rfl
    · rw [if_neg hpad, Option.bind_eq_some_iff] at h
      obtain ⟨k, hy, h⟩ := h
      have hy : (value? y).isSome = true := by rw [hy]; rfl
      by_cases hlast : z = pad ∧ rest = []
      · obtain ⟨rfl, rfl⟩ := hlast
        simp only [List.mem_cons, List.not_mem_nil, or_false] at hc
        rcases hc with rfl | rfl | rfl | rfl
        · exact .inr hw
        · exact .inr hx
        · exact .inr hy
        · exact .inl rfl
      · rw [if_neg hlast] at h
        simp only [Option.bind_eq_some_iff] at h
        obtain ⟨l, hz, bytes, hrest, -⟩ := h
        simp only [List.mem_cons] at hc
        rcases hc with rfl | rfl | rfl | rfl | hc
        · exact .inr hw
        · exact .inr hx
        · exact .inr hy
        · exact .inr (by rw [hz]; rfl)
        · exact ih hrest hc
  | case3 cs hne hgroups =>
    rw [decode] at h
    · cases h
    · exact hne
    · exact hgroups

theorem encode_injective : Function.Injective encode := fun a b h =>
  Option.some.inj (by rw [← decode_encode a, h, decode_encode b])

theorem encode_eq_nil_iff {bs : List UInt8} : encode bs = [] ↔ bs = [] := by
  constructor
  · intro h
    exact encode_injective h
  · rintro rfl
    rfl

end VeyraCam.Base64
