import VeyraCam.Protocol.Bytes

/-! # JSON objects

Both sides write flat JSON objects, the phone with a library that escapes
quotation marks, backslashes and slashes, the desktop by concatenation.
-/

namespace VeyraCam

def quote : Char := .ofNat 34

def backslash : Char := .ofNat 92

/-- A value of a JSON object: a string, or the text of a value of another kind. -/
inductive JsonValue where
  | string (s : Text)
  | raw (text : Text)
  deriving DecidableEq

namespace JsonValue

def number (n : ℤ) : JsonValue := raw (toString n).toList

def text : JsonValue → Text
  | string s => quote :: s ++ [quote]
  | raw text => text

end JsonValue

/-- The characters that are written with a backslash before them. -/
def isEscaped (c : Char) : Bool := c = quote || c = backslash || c = '/'

def escape (s : Text) : Text := s.flatMap fun c => if isEscaped c then [backslash, c] else [c]

def unescapeChar (c : Char) : Char :=
  if c = 'b' then .ofNat 8
  else if c = 'f' then .ofNat 12
  else if c = 'n' then .ofNat 10
  else if c = 'r' then .ofNat 13
  else if c = 't' then .ofNat 9
  else c

/-- The text that a JSON string without code points stands for. -/
def unescape : Text → Text
  | [] => []
  | [c] => [c]
  | c :: d :: s =>
    if c = backslash then unescapeChar d :: unescape s else c :: unescape (d :: s)

def membersText : List (Text × JsonValue) → Text
  | [] => []
  | [(key, value)] => quote :: key ++ quote :: ':' :: value.text
  | (key, value) :: field :: fields =>
    quote :: key ++ quote :: ':' :: value.text ++ ',' :: membersText (field :: fields)

def objectText (fields : List (Text × JsonValue)) : Text :=
  .ofNat 123 :: membersText fields ++ [.ofNat 125]

def JsonValue.escaped : JsonValue → JsonValue
  | string s => string (escape s)
  | raw text => raw text

/-- `JSONObject.toString`, for strings without control characters. -/
def jsonToString (fields : List (Text × JsonValue)) : Text :=
  objectText (fields.map fun (key, value) => (escape key, value.escaped))

/-- Letters and underscores only, as in the names of members. -/
def IsWord (s : Text) : Prop := s ≠ [] ∧ ∀ c ∈ s, c.isAlpha = true ∨ c = '_'

-- Here and below the characters of the text are gone through, not all of `Char`.
instance : DecidablePred IsWord := fun s =>
  have := List.decidableBAll (fun c : Char => c.isAlpha = true ∨ c = '_') s
  inferInstanceAs (Decidable (_ ∧ _))

/-- No quotation mark in the value, and it is not one of the given texts. -/
def JsonValue.Plain (names : List Text) : JsonValue → Prop
  | string s => quote ∉ s ∧ s ∉ names
  | raw text => quote ∉ text

instance (names : List Text) : DecidablePred (JsonValue.Plain names)
  | .string s => inferInstanceAs (Decidable (quote ∉ s ∧ s ∉ names))
  | .raw text => inferInstanceAs (Decidable (quote ∉ text))

/-- The text of a number, a truth value or another bare word. -/
def IsLiteral (text : Text) : Prop :=
  text ≠ [] ∧ ∀ c ∈ text, c.isAlphanum = true ∨ c = '.' ∨ c = '-' ∨ c = '+'

instance : DecidablePred IsLiteral := fun text =>
  have := List.decidableBAll
    (fun c : Char => c.isAlphanum = true ∨ c = '.' ∨ c = '-' ∨ c = '+') text
  inferInstanceAs (Decidable (_ ∧ _))

/-- A string of printable characters that need no escape, or a literal. -/
def JsonValue.Simple : JsonValue → Prop
  | string s => ∀ c ∈ s, c ≠ quote ∧ c ≠ backslash ∧ 32 ≤ c.toNat
  | raw text => IsLiteral text

instance : DecidablePred JsonValue.Simple
  | .string s => List.decidableBAll (fun c => c ≠ quote ∧ c ≠ backslash ∧ 32 ≤ c.toNat) s
  | .raw text => inferInstanceAs (Decidable (IsLiteral text))

theorem JsonValue.Simple.quote_notMem {s : Text} (h : (JsonValue.string s).Simple) : quote ∉ s :=
  fun hq => (h quote hq).1 rfl

/-- The members have different names, which are words, and plain values. -/
structure Readable (fields : List (Text × JsonValue)) : Prop where
  nodup : (fields.map Prod.fst).Nodup
  word : ∀ f ∈ fields, IsWord f.1
  plain : ∀ f ∈ fields, f.2.Plain (fields.map Prod.fst)

theorem readable_of_names {fields : List (Text × JsonValue)} (names : List Text)
    (hfields : fields.map Prod.fst = names) (hnodup : names.Nodup) (hword : ∀ n ∈ names, IsWord n)
    (hplain : ∀ f ∈ fields, f.2.Plain names) : Readable fields := by
  subst hfields
  exact ⟨hnodup, fun f hf => hword f.1 (List.mem_map_of_mem hf), hplain⟩

theorem IsWord.quote_notMem {s : Text} (h : IsWord s) : quote ∉ s := fun hq =>
  (h.2 quote hq).elim (by decide) (by decide)

theorem quote_notMem_number (n : ℤ) : quote ∉ (toString n).toList := by
  have hdigits (m : ℕ) : quote ∉ (Nat.repr m).toList := by
    intro h
    have hq := Nat.isDigit_of_mem_toDigits (b := 10) (by decide) (by decide)
      (show quote ∈ Nat.toDigits 10 m by simpa [Nat.repr] using h)
    exact absurd hq (by decide)
  cases n with
  | ofNat m => exact hdigits m
  | negSucc m =>
    intro h
    have h : quote ∈ '-' :: (Nat.repr m.succ).toList := by
      simpa [Int.repr, toString] using h
    rcases List.mem_cons.mp h with hq | h
    · exact absurd hq (by decide)
    · exact hdigits _ h

theorem escape_of_none {s : Text} (h : ∀ c ∈ s, isEscaped c = false) : escape s = s := by
  have hsingle : s.flatMap (fun c => if isEscaped c then [backslash, c] else [c]) =
      s.flatMap fun c => [c] :=
    List.flatMap_congr fun c hc => by rw [h c hc]; rfl
  exact hsingle.trans (List.flatMap_singleton' s)

theorem unescape_cons_of_ne {c : Char} (h : c ≠ backslash) (s : Text) :
    unescape (c :: s) = c :: unescape s := by
  cases s with
  | nil => rfl
  | cons d s => rw [unescape, if_neg h]

theorem unescape_backslash {c : Char} (h : isEscaped c = true) (s : Text) :
    unescape (backslash :: c :: s) = c :: unescape s := by
  have hc : unescapeChar c = c := by
    simp only [isEscaped, Bool.or_eq_true, decide_eq_true_eq] at h
    rcases h with (rfl | rfl) | rfl <;> rfl
  rw [unescape, if_pos rfl, hc]

theorem escape_cons (c : Char) (s : Text) :
    escape (c :: s) = (if isEscaped c then [backslash, c] else [c]) ++ escape s := rfl

theorem unescape_escape (s : Text) : unescape (escape s) = s := by
  induction s with
  | nil => rfl
  | cons c s ih =>
    rw [escape_cons]
    split_ifs with h
    · change unescape (backslash :: c :: escape s) = _
      rw [unescape_backslash h, ih]
    · have hne : c ≠ backslash := by
        rintro rfl
        exact h (by decide)
      change unescape (c :: escape s) = _
      rw [unescape_cons_of_ne hne, ih]

theorem mem_escape {s : Text} {c : Char} (h : c ∈ escape s) : c = backslash ∨ c ∈ s := by
  obtain ⟨d, hd, hc⟩ := List.mem_flatMap.mp h
  split_ifs at hc
  · rcases List.mem_cons.mp hc with rfl | hc
    · exact .inl rfl
    · exact .inr (List.mem_singleton.mp hc ▸ hd)
  · exact .inr (List.mem_singleton.mp hc ▸ hd)

theorem length_le_length_escape (s : Text) : s.length ≤ (escape s).length := by
  induction s with
  | nil => rfl
  | cons c s ih =>
    rw [escape_cons, List.length_append, List.length_cons]
    split_ifs <;> simp only [List.length_cons, List.length_nil] <;> omega

theorem backslash_mem_escape {s : Text} {c : Char} (hc : c ∈ s) (h : isEscaped c = true) :
    backslash ∈ escape s :=
  List.mem_flatMap.mpr ⟨c, hc, by simp [h]⟩

end VeyraCam
