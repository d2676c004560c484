import Mathlib.Data.Rat.Defs
import Mathlib.Tactic.Ring

/-! # Reading JSON

A text is cut into tokens character by character, and the tokens are read with
a stack of the arrays and objects that are still open. A number without
fraction and exponent is an integer. Code points outside the first plane, which
are written as two codes, are left out.
-/

namespace VeyraCam.JsonText

inductive Scalar where
  | null
  | bool (b : Bool)
  | integer (n : ℤ)
  | decimal (x : ℚ)
  | string (s : List Char)
  deriving DecidableEq

/-- The members of an object are in the order of the text. -/
inductive Value where
  | scalar (x : Scalar)
  | array (items : List Value)
  | object (members : List (List Char × Value))

/-! ## Numbers -/

/-- The digits at the head of the text, at least one, and the text after them. -/
def digits? (s : List Char) : Option (List Char × List Char) :=
  if s.takeWhile Char.isDigit = [] then none
  else some (s.takeWhile Char.isDigit, s.dropWhile Char.isDigit)

def fraction? : List Char → Option (List Char × List Char)
  | '.' :: s => digits? s
  | s => some ([], s)

def natural? (s : List Char) : Option ℕ :=
  match digits? s with
  | some (digits, []) => some (Nat.ofDigitChars 10 digits 0)
  | _ => none

def exponent? : List Char → Option ℤ
  | [] => some 0
  | c :: s =>
    if c = 'e' ∨ c = 'E' then
      match s with
      | '-' :: s => (natural? s).map fun n => -n
      | '+' :: s => (natural? s).map fun n => n
      | s => (natural? s).map fun n => n
    else none

def unsigned? (s : List Char) : Option Scalar := do
  let (whole, s) ← digits? s
  if whole.head? = some '0' ∧ whole ≠ ['0'] then none
  else if s = [] then some (.integer (Nat.ofDigitChars 10 whole 0))
  else
    let (fraction, s) ← fraction? s
    let exponent ← exponent? s
    let digits : ℕ := Nat.ofDigitChars 10 (whole ++ fraction) 0
    some (.decimal (digits * 10 ^ (exponent - fraction.length)))

def Scalar.neg : Scalar → Scalar
  | integer n => integer (-n)
  | decimal x => decimal (-x)
  | x => x

def number? : List Char → Option Scalar
  | '-' :: s => (unsigned? s).map Scalar.neg
  | s => unsigned? s

/-! ## Tokens -/

inductive Token where
  | openBrace
  | closeBrace
  | openBracket
  | closeBracket
  | comma
  | colon
  | scalar (x : Scalar)
  deriving DecidableEq

def quote : Char := .ofNat 34

def backslash : Char := .ofNat 92

def isSpace (c : Char) : Bool := c = ' ' || c = '\n' || c = '\r' || c = '\t'

def isWordChar (c : Char) : Bool := c.isAlphanum || c = '-' || c = '+' || c = '.'

def mark? (c : Char) : Option Token :=
  if c = .ofNat 123 then some .openBrace
  else if c = .ofNat 125 then some .closeBrace
  else if c = '[' then some .openBracket
  else if c = ']' then some .closeBracket
  else if c = ',' then some .comma
  else if c = ':' then some .colon
  else none

def word? (s : List Char) : Option Scalar :=
  if s = "null".toList then some .null
  else if s = "true".toList then some (.bool true)
  else if s = "false".toList then some (.bool false)
  else number? s

def escaped? (c : Char) : Option Char :=
  if c = quote ∨ c = backslash ∨ c = '/' then some c
  else if c = 'b' then some (.ofNat 8)
  else if c = 'f' then some (.ofNat 12)
  else if c = 'n' then some '\n'
  else if c = 'r' then some '\r'
  else if c = 't' then some '\t'
  else none

def hexDigit? (c : Char) : Option ℕ :=
  if c.isDigit then some (c.toNat - 48)
  else if 'a' ≤ c ∧ c ≤ 'f' then some (c.toNat - 87)
  else if 'A' ≤ c ∧ c ≤ 'F' then some (c.toNat - 55)
  else none

/-- Where in the text the reader is. The characters of the present token are in reverse. -/
inductive Mode where
  | between
  | word (read : List Char)
  | string (read : List Char)
  | escape (read : List Char)
  | code (read : List Char) (digits : List ℕ)

def beginToken (c : Char) : Option (List Token × Mode) :=
  if c = quote then some ([], .string [])
  else if isSpace c then some ([], .between)
  else if isWordChar c then some ([], .word [c])
  else (mark? c).map fun t => ([t], .between)

def Mode.next : Mode → Char → Option (List Token × Mode)
  | between, c => beginToken c
  | word read, c =>
    if isWordChar c then some ([], word (c :: read))
    else do
      let x ← word? read.reverse
      let (ts, mode) ← beginToken c
      some (.scalar x :: ts, mode)
  | string read, c =>
    if c = quote then some ([.scalar (.string read.reverse)], between)
    else if c = backslash then some ([], escape read)
    else if c.toNat < 32 then none
    else some ([], string (c :: read))
  | escape read, c =>
    if c = 'u' then some ([], code read [])
    else (escaped? c).map fun d => ([], string (d :: read))
  | code read digits, c => do
    let digit ← hexDigit? c
    let digits := digits ++ [digit]
    if digits.length < 4 then some ([], code read digits)
    else
      let point := digits.foldl (16 * · + ·) 0
      if point.isValidChar then some ([], string (.ofNat point :: read)) else none

def Mode.finish : Mode → Option (List Token)
  | between => some []
  | word read => (word? read.reverse).map fun x => [.scalar x]
  | _ => none

/-- The tokens of a piece of the text, and where the reader is after it. -/
def scan : Mode → List Char → Option (List Token × Mode)
  | mode, [] => some ([], mode)
  | mode, c :: s => do
    let (ts, mode) ← mode.next c
    let (us, mode) ← scan mode s
    some (ts ++ us, mode)

def tokens? (s : List Char) : Option (List Token) := do
  let (ts, mode) ← scan .between s
  let us ← mode.finish
  some (ts ++ us)

/-! ## Values -/

/-- An array or an object that is not closed yet, with what was read of it. -/
inductive Frame where
  | array (items : List Value)
  | object (members : List (List Char × Value)) (key : List Char)

inductive State where
  | value (frames : List Frame)
  | firstItem (frames : List Frame)
  | afterItem (items : List Value) (frames : List Frame)
  | firstKey (frames : List Frame)
  | key (members : List (List Char × Value)) (frames : List Frame)
  | colon (members : List (List Char × Value)) (key : List Char) (frames : List Frame)
  | afterMember (members : List (List Char × Value)) (frames : List Frame)
  | done (v : Value)

def deliver (v : Value) : List Frame → State
  | [] => .done v
  | .array items :: frames => .afterItem (items ++ [v]) frames
  | .object members key :: frames => .afterMember (members ++ [(key, v)]) frames

def beginValue (frames : List Frame) : Token → Option State
  | .scalar x => some (deliver (.scalar x) frames)
  | .openBrace => some (.firstKey frames)
  | .openBracket => some (.firstItem frames)
  | _ => none

def State.next : State → Token → Option State
  | value frames, t => beginValue frames t
  | firstItem frames, .closeBracket => some (deliver (.array []) frames)
  | firstItem frames, t => beginValue (.array [] :: frames) t
  | afterItem items frames, .comma => some (value (.array items :: frames))
  | afterItem items frames, .closeBracket => some (deliver (.array items) frames)
  | firstKey frames, .closeBrace => some (deliver (.object []) frames)
  | firstKey frames, .scalar (.string k) => some (colon [] k frames)
  | key members frames, .scalar (.string k) => some (colon members k frames)
  | colon members k frames, .colon => some (value (.object members k :: frames))
  | afterMember members frames, .comma => some (key members frames)
  | afterMember members frames, .closeBrace => some (deliver (.object members) frames)
  | _, _ => none

def read : State → List Token → Option Value
  | .done v, [] => some v
  | _, [] => none
  | state, t :: ts => (state.next t).bind fun state => read state ts

def decode (s : List Char) : Option Value := (tokens? s).bind (read (.value []))

example : decode "[\"a\\u0041\\n\", [], -12 ]".toList =
    some (.array [.scalar (.string ['a', 'A', '\n']), .array [], .scalar (.integer (-12))]) := rfl

/-- The value of a member. Of two members with one name the later one counts. -/
def lookup (members : List (List Char × Value)) (key : List Char) : Option Value :=
  members.reverse.lookup key

theorem lookup_eq_none {members : List (List Char × Value)} {key : List Char}
    (h : key ∉ members.map Prod.fst) : lookup members key = none := by
  rw [lookup, List.lookup_eq_none_iff]
  intro member hmember
  have hne : key ≠ member.1 := by
    rintro rfl
    exact h (List.mem_map_of_mem (List.mem_reverse.mp hmember))
  exact bne_iff_ne.mpr hne

/-! ## Printed numbers -/

theorem digits?_append {digits s : List Char} (hne : digits ≠ [])
    (hdigits : ∀ c ∈ digits, c.isDigit = true) (hs : ∀ c ∈ s.head?, c.isDigit = false) :
    digits? (digits ++ s) = some (digits, s) := by
  have htake : s.takeWhile Char.isDigit = [] := by
    cases s with
    | nil => rfl
    | cons c s => rw [List.takeWhile_cons_of_neg (by simp [hs c rfl])]
  have hdrop : s.dropWhile Char.isDigit = s := by
    cases s with
    | nil => rfl
    | cons c s => rw [List.dropWhile_cons_of_neg (by simp [hs c rfl])]
  rw [digits?, List.takeWhile_append_of_pos hdigits, List.dropWhile_append_of_pos hdigits, htake,
    hdrop, List.append_nil, if_neg hne]

theorem head?_toDigits_ne {n : ℕ} (h : 0 < n) : (Nat.toDigits 10 n).head? ≠ some '0' := by
  have hdigit : ∀ d < 10, 0 < d → Nat.digitChar d ≠ '0' := by decide
  induction n using Nat.strongRecOn with
  | ind n ih =>
    rcases lt_or_ge n 10 with hlt | hge
    · rw [Nat.toDigits_of_lt_base hlt, List.head?_singleton]
      exact fun heq => hdigit n hlt h (Option.some.inj heq)
    · have hdiv : 0 < n / 10 := Nat.div_pos hge (by decide)
      have hhead := List.head?_eq_some_head (Nat.toDigits_ne_nil (n := n / 10) (b := 10))
      rw [Nat.toDigits_of_base_le (by decide) hge, List.head?_append, hhead, Option.some_or,
        ← hhead]
      exact ih (n / 10) (Nat.div_lt_self h (by decide)) hdiv

theorem isDigit_of_mem_toDigits {n : ℕ} : ∀ c ∈ Nat.toDigits 10 n, c.isDigit = true := fun _ =>
  Nat.isDigit_of_mem_toDigits (by decide) (by decide)

theorem toDigits_leading (n : ℕ) :
    ¬((Nat.toDigits 10 n).head? = some '0' ∧ Nat.toDigits 10 n ≠ ['0']) := by
  rintro ⟨hhead, hne⟩
  rcases Nat.eq_zero_or_pos n with rfl | hpos
  · exact hne rfl
  · exact head?_toDigits_ne hpos hhead

theorem unsigned?_toDigits (n : ℕ) : unsigned? (Nat.toDigits 10 n) = some (.integer n) := by
  have hdigits := digits?_append (s := []) (Nat.toDigits_ne_nil (n := n) (b := 10))
    isDigit_of_mem_toDigits (by simp)
  rw [List.append_nil] at hdigits
  simp [unsigned?, hdigits, if_neg (toDigits_leading n)]

theorem unsigned?_toDigits_dot (n : ℕ) {digits : List Char} (hne : digits ≠ [])
    (hdigits : ∀ c ∈ digits, c.isDigit = true) :
    unsigned? (Nat.toDigits 10 n ++ '.' :: digits) =
      some (.decimal (Nat.ofDigitChars 10 digits n / 10 ^ digits.length)) := by
  have hwhole := digits?_append (s := '.' :: digits) (Nat.toDigits_ne_nil (n := n) (b := 10))
    isDigit_of_mem_toDigits (by simp)
  have hfraction := digits?_append (s := []) hne hdigits (by simp)
  rw [List.append_nil] at hfraction
  simp [unsigned?, hwhole, if_neg (toDigits_leading n), fraction?, hfraction, exponent?,
    Nat.ofDigitChars_append, div_eq_mul_inv]

theorem number?_toDigits_append (n : ℕ) (s : List Char) :
    number? (Nat.toDigits 10 n ++ s) = unsigned? (Nat.toDigits 10 n ++ s) := by
  obtain ⟨c, digits, heq⟩ := List.exists_cons_of_ne_nil (Nat.toDigits_ne_nil (n := n) (b := 10))
  have hc : c.isDigit = true := isDigit_of_mem_toDigits c (heq ▸ List.mem_cons_self)
  rw [heq, List.cons_append, number?]
  rintro s ⟨⟩
  exact absurd hc (by decide)

structure Spells (s : List Char) (x : Scalar) : Prop where
  word : ∀ c ∈ s, isWordChar c = true
  eq : word? s = some x

theorem isWordChar_of_isDigit {c : Char} (h : c.isDigit = true) : isWordChar c = true := by
  simp [isWordChar, Char.isAlphanum, h]

theorem word?_of_number? {s : List Char} {x : Scalar} (h : number? s = some x) :
    word? s = some x := by
  have hnull : number? "null".toList = none := rfl
  have htrue : number? "true".toList = none := rfl
  have hfalse : number? "false".toList = none := rfl
  have hne (name : List Char) (hname : number? name = none) : s ≠ name := by
    rintro rfl
    rw [h] at hname
    cases hname
  rw [word?, if_neg (hne _ hnull), if_neg (hne _ htrue), if_neg (hne _ hfalse), h]

theorem spells_toDigits (n : ℕ) : Spells (Nat.toDigits 10 n) (.integer n) where
  word c hc := isWordChar_of_isDigit (isDigit_of_mem_toDigits c hc)
  eq := by
    have hnumber := number?_toDigits_append n []
    rw [List.append_nil, unsigned?_toDigits] at hnumber
    exact word?_of_number? hnumber

theorem spells_minus {n : ℕ} : Spells ('-' :: Nat.toDigits 10 n) (.integer (-n)) where
  word c hc := by
    rcases List.mem_cons.mp hc with rfl | hc
    · rfl
    · exact isWordChar_of_isDigit (isDigit_of_mem_toDigits c hc)
  eq := word?_of_number? (by rw [number?, unsigned?_toDigits]; rfl)

theorem toList_toString_negSucc (n : ℕ) :
    (toString (Int.negSucc n)).toList = '-' :: Nat.toDigits 10 (n + 1) := by
  simp [Int.repr, toString]

theorem spells_toString (n : ℤ) : Spells (toString n).toList (.integer n) := by
  cases n with
  | ofNat n =>
    have htext : (toString (Int.ofNat n)).toList = Nat.toDigits 10 n := Nat.toList_repr
    rw [htext]
    exact spells_toDigits n
  | negSucc n =>
    rw [toList_toString_negSucc]
    exact spells_minus

theorem spells_decimal (n : ℕ) {digits : List Char} (hne : digits ≠ [])
    (hdigits : ∀ c ∈ digits, c.isDigit = true) :
    Spells (Nat.toDigits 10 n ++ '.' :: digits)
      (.decimal (Nat.ofDigitChars 10 digits n / 10 ^ digits.length)) where
  word c hc := by
    rcases List.mem_append.mp hc with hc | hc
    · exact isWordChar_of_isDigit (isDigit_of_mem_toDigits c hc)
    · rcases List.mem_cons.mp hc with rfl | hc
      · rfl
      · exact isWordChar_of_isDigit (hdigits c hc)
  eq := by
    have hnumber := number?_toDigits_append n ('.' :: digits)
    rw [unsigned?_toDigits_dot n hne hdigits] at hnumber
    exact word?_of_number? hnumber

theorem spells_minus_decimal (n : ℕ) {digits : List Char} (hne : digits ≠ [])
    (hdigits : ∀ c ∈ digits, c.isDigit = true) :
    Spells ('-' :: (Nat.toDigits 10 n ++ '.' :: digits))
      (.decimal (-(Nat.ofDigitChars 10 digits n / 10 ^ digits.length))) where
  word c hc := by
    rcases List.mem_cons.mp hc with rfl | hc
    · rfl
    · exact (spells_decimal n hne hdigits).word c hc
  eq := word?_of_number? (by rw [number?, unsigned?_toDigits_dot n hne hdigits]; rfl)

/-! ## Texts in pieces -/

/-- The text is cut into these tokens, and nothing of it belongs to a token after them. -/
def Lexes (s : List Char) (ts : List Token) : Prop := scan .between s = some (ts, .between)

theorem scan_append (mode : Mode) (s t : List Char) :
    scan mode (s ++ t) = (scan mode s).bind fun p =>
      (scan p.2 t).map fun q => (p.1 ++ q.1, q.2) := by
  induction s generalizing mode with
  | nil => simp [scan]
  | cons c s ih =>
    rw [List.cons_append, scan, scan]
    cases mode.next c with
    | none => rfl
    | some p =>
      obtain ⟨ts, mode⟩ := p
      change (scan mode (s ++ t)).bind _ = ((scan mode s).bind _).bind _
      rw [ih mode]
      cases scan mode s with
      | none => rfl
      | some q => cases hq : scan q.2 t <;> simp [hq]

theorem Lexes.nil : Lexes [] [] := rfl

theorem Lexes.append {s s' : List Char} {ts ts' : List Token} (h : Lexes s ts)
    (h' : Lexes s' ts') : Lexes (s ++ s') (ts ++ ts') := by
  rw [Lexes, scan_append, show scan .between s = some (ts, .between) from h, Option.bind_some,
    show scan .between s' = some (ts', .between) from h', Option.map_some]

theorem Lexes.flatten {pieces : List (List Char)} {tss : List (List Token)}
    (h : List.Forall₂ Lexes pieces tss) : Lexes pieces.flatten tss.flatten := by
  induction h with
  | nil => exact Lexes.nil
  | cons h _ ih => exact h.append ih

theorem Lexes.tokens?_eq {s : List Char} {ts : List Token} (h : Lexes s ts) :
    tokens? s = some ts := by
  rw [tokens?, show scan .between s = some (ts, .between) from h]
  exact congrArg some (List.append_nil ts)

theorem beginToken_of_isWordChar {c : Char} (hc : isWordChar c = true) :
    beginToken c = some ([], .word [c]) := by
  have hquote : c ≠ quote := by
    rintro rfl
    exact absurd hc (by decide)
  have hspace : isSpace c = false := by
    by_contra h
    simp only [isSpace, Bool.or_eq_true, decide_eq_true_eq, Bool.not_eq_false] at h
    rcases h with ((rfl | rfl) | rfl) | rfl <;> exact absurd hc (by decide)
  rw [beginToken, if_neg hquote, hspace, if_neg Bool.false_ne_true, if_pos hc]

theorem scan_word {s : List Char} (hs : ∀ c ∈ s, isWordChar c = true) (read : List Char) :
    scan (.word read) s = some ([], .word (s.reverse ++ read)) := by
  induction s generalizing read with
  | nil => rfl
  | cons c s ih =>
    have hc : isWordChar c = true := hs c List.mem_cons_self
    have ih := ih (fun d hd => hs d (List.mem_cons_of_mem _ hd)) (c :: read)
    rw [scan, Mode.next, if_pos hc]
    simp [ih]

theorem Lexes.word {s : List Char} {x : Scalar} (hx : Spells s x) {c : Char} {t : List Char}
    {ts : List Token} (hc : isWordChar c = false) (h : Lexes (c :: t) ts) :
    Lexes (s ++ c :: t) (.scalar x :: ts) := by
  obtain ⟨hword, heq⟩ := hx
  cases s with
  | nil => cases heq
  | cons d s =>
    have hd : isWordChar d = true := hword d List.mem_cons_self
    have hs : ∀ e ∈ s, isWordChar e = true := fun e he => hword e (List.mem_cons_of_mem _ he)
    have hscan : scan .between (d :: s) = some ([], .word (s.reverse ++ [d])) := by
      rw [scan, Mode.next, beginToken_of_isWordChar hd]
      simp [scan_word hs]
    have hread : (s.reverse ++ [d]).reverse = d :: s := by simp
    rw [Lexes, scan, Mode.next] at h
    rw [Lexes, scan_append, hscan, Option.bind_some, scan, Mode.next, hread, heq,
      if_neg (by simp [hc])]
    cases hbegin : beginToken c with
    | none =>
      rw [hbegin] at h
      cases h
    | some p =>
      rw [hbegin] at h
      change (scan p.2 t).bind _ = _ at h
      obtain ⟨⟨us, mode⟩, hq, h⟩ := Option.bind_eq_some_iff.mp h
      cases h
      simp [hq]

theorem scan_word_append {s : List Char} (hne : s ≠ [])
    (hs : ∀ d ∈ s, isWordChar d = true) {c : Char} (hc : isWordChar c = false) (t : List Char) :
    scan .between (s ++ c :: t) = (word? s).bind fun x =>
      (scan .between (c :: t)).map fun p => (.scalar x :: p.1, p.2) := by
  obtain ⟨d, s, rfl⟩ := List.exists_cons_of_ne_nil hne
  obtain ⟨hd, hs⟩ := List.forall_mem_cons.mp hs
  have hscan : scan .between (d :: s) = some ([], .word (s.reverse ++ [d])) := by
    rw [scan, Mode.next, beginToken_of_isWordChar hd]
    simp [scan_word hs]
  have hread : (s.reverse ++ [d]).reverse = d :: s := by simp
  rw [scan_append, hscan, Option.bind_some, scan, scan, Mode.next, Mode.next, hread,
    if_neg (by simp [hc])]
  cases hw : word? (d :: s) with
  | none => rfl
  | some x =>
    cases hb : beginToken c with
    | none => rfl
    | some p => cases hq : scan p.2 t <;> simp [hq]

theorem Lexes.scan_append {s : List Char} {ts : List Token} (h : Lexes s ts)
    (t : List Char) :
    scan .between (s ++ t) = (scan .between t).map fun p => (ts ++ p.1, p.2) := by
  rw [VeyraCam.JsonText.scan_append, show scan .between s = some (ts, .between) from h,
    Option.bind_some]

/-! ## Printed values -/

def Token.Holds (Q : ℚ → Prop) : Token → Prop
  | scalar (.integer n) => Q n
  | scalar (.decimal x) => Q x
  | _ => True

/-- Before whatever ends a word, the text is read as the value, with numbers as `Q` says. -/
def Denotes (Q : ℚ → Prop) (s : List Char) (v : Value) : Prop :=
  ∃ ts : List Token, (∀ t ∈ ts, t.Holds Q) ∧
    (∀ c t us, isWordChar c = false → Lexes (c :: t) us → Lexes (s ++ c :: t) (ts ++ us)) ∧
    ∀ frames us, read (.value frames) (ts ++ us) = read (deliver v frames) us

variable {Q : ℚ → Prop}

theorem Spells.denotes {s : List Char} {x : Scalar} (h : Spells s x)
    (hx : (Token.scalar x).Holds Q) : Denotes Q s (.scalar x) := by
  refine ⟨[.scalar x], List.forall_mem_singleton.mpr hx, ?_, ?_⟩
  · intro c t us hc hrest
    exact Lexes.word h hc hrest
  · intro frames us
    rfl

theorem Lexes.denotes {s : List Char} {ts : List Token} {v : Value} (h : Lexes s ts)
    (hholds : ∀ t ∈ ts, t.Holds Q)
    (hread : ∀ frames us, read (.value frames) (ts ++ us) = read (deliver v frames) us) :
    Denotes Q s v :=
  ⟨ts, hholds, fun _ _ _ _ hrest => h.append hrest, hread⟩

theorem scan_of_silent {mode mode' : Mode} {c : Char} (h : mode.next c = some ([], mode'))
    (s : List Char) : scan mode (c :: s) = scan mode' s := by
  rw [scan, h]
  cases hs : scan mode' s <;> simp [hs]

theorem Mode.next_string {c : Char} (hquote : c ≠ quote) (hbackslash : c ≠ backslash)
    (h : 32 ≤ c.toNat) (read : List Char) :
    (string read).next c = some ([], string (c :: read)) := by
  rw [next, if_neg hquote, if_neg hbackslash, if_neg (not_lt.mpr h)]

/-- A string that needs no escapes, between its quotation marks, is one token. -/
theorem Lexes.string {s : List Char}
    (h : ∀ c ∈ s, c ≠ quote ∧ c ≠ backslash ∧ 32 ≤ c.toNat) :
    Lexes (quote :: s ++ [quote]) [.scalar (.string s)] := by
  have hchars (read t : List Char) :
      scan (.string read) (s ++ t) = scan (.string (s.reverse ++ read)) t := by
    induction s generalizing read with
    | nil => rfl
    | cons c s ih =>
      obtain ⟨⟨hquote, hbackslash, hc⟩, hs⟩ := List.forall_mem_cons.mp h
      rw [List.cons_append, scan_of_silent (Mode.next_string hquote hbackslash hc read), ih hs]
      simp
  have hopen : Mode.next .between quote = some ([], .string []) := rfl
  have hclose : scan (.string (s.reverse ++ [])) [quote] =
      some ([.scalar (.string (s.reverse ++ []).reverse)], .between) := rfl
  rw [Lexes, List.cons_append, scan_of_silent hopen, hchars, hclose]
  simp

theorem Lexes.blanks {s : List Char} (h : ∀ c ∈ s, c = ' ' ∨ c = '\t') : Lexes s [] := by
  induction s with
  | nil => exact .nil
  | cons c s ih =>
    obtain ⟨hc, hs⟩ := List.forall_mem_cons.mp h
    have hblank : Mode.between.next c = some ([], .between) := by
      rcases hc with rfl | rfl <;> rfl
    rw [Lexes, scan_of_silent hblank]
    exact ih hs

theorem Denotes.of_blanks {s blanks : List Char} {v : Value} (h : Denotes Q s v)
    (hblanks : ∀ c ∈ blanks, c = ' ' ∨ c = '\t') : Denotes Q (blanks ++ s) v := by
  obtain ⟨ts, hholds, hlexes, hread⟩ := h
  refine ⟨ts, hholds, fun c t us hc hrest => ?_, hread⟩
  rw [List.append_assoc]
  exact (Lexes.blanks hblanks).append (hlexes c t us hc hrest)

theorem lookup_of_mem {members : List (List Char × Value)} (h : (members.map Prod.fst).Nodup)
    {key : List Char} {v : Value} (hm : (key, v) ∈ members) : lookup members key = some v := by
  obtain ⟨pre, post, rfl⟩ := List.append_of_mem hm
  have hpost : lookup post key = none := by
    apply lookup_eq_none
    intro hmem
    rw [List.map_append, List.map_cons] at h
    exact (List.nodup_cons.mp (List.nodup_append.mp h).2.1).1 hmem
  rw [lookup] at hpost ⊢
  rw [List.reverse_append, List.reverse_cons, List.append_assoc, List.lookup_append, hpost,
    Option.none_or]
  simp

end VeyraCam.JsonText
