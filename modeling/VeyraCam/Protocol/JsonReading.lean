import VeyraCam.Library.JsonText
import VeyraCam.Protocol.Json

/-! # Reading printed objects

A JSON reader gets back the members that either side prints, the strings without
their escapes.
-/

namespace VeyraCam

open JsonText

variable {Q : ℚ → Prop}

theorem scan_escape {s : Text} (h : ∀ c ∈ s, 32 ≤ c.toNat) (read : Text) (t : Text) :
    scan (.string read) (escape s ++ t) = scan (.string (s.reverse ++ read)) t := by
  induction s generalizing read with
  | nil => rfl
  | cons c s ih =>
    obtain ⟨hc, hs⟩ := List.forall_mem_cons.mp h
    have hrest := ih hs (c :: read)
    have hlist : (c :: s).reverse ++ read = s.reverse ++ c :: read := by simp
    rw [hlist, ← hrest, escape_cons]
    split_ifs with hescaped
    · have hslash : (Mode.string read).next backslash = some ([], .escape read) := rfl
      have hchar : (Mode.escape read).next c = some ([], .string (c :: read)) := by
        simp only [isEscaped, Bool.or_eq_true, decide_eq_true_eq] at hescaped
        rcases hescaped with (rfl | rfl) | rfl <;> rfl
      change scan _ (backslash :: c :: (escape s ++ t)) = _
      rw [scan_of_silent hslash, scan_of_silent hchar]
    · have hchar : (Mode.string read).next c = some ([], .string (c :: read)) := by
        simp only [isEscaped, Bool.or_eq_true, decide_eq_true_eq, not_or] at hescaped
        obtain ⟨⟨hquote, hbackslash⟩, -⟩ := hescaped
        exact Mode.next_string hquote hbackslash hc read
      change scan _ (c :: (escape s ++ t)) = _
      rw [scan_of_silent hchar]

theorem lexes_string {s : Text} (h : ∀ c ∈ s, 32 ≤ c.toNat) :
    Lexes (quote :: escape s ++ [quote]) [.scalar (.string s)] := by
  have hopen : Mode.next .between quote = some ([], .string []) := rfl
  have hclose : scan (.string (s.reverse ++ [])) [quote] =
      some ([.scalar (.string (s.reverse ++ []).reverse)], .between) := rfl
  rw [Lexes, List.cons_append, scan_of_silent hopen, scan_escape h, hclose]
  simp

theorem denotes_string {s : Text} (h : ∀ c ∈ s, 32 ≤ c.toNat) :
    Denotes Q (JsonValue.string (escape s)).text (.scalar (.string s)) :=
  (lexes_string h).denotes (List.forall_mem_singleton.mpr trivial) fun _ _ => rfl

theorem JsonValue.Simple.denotes {s : Text} (h : (JsonValue.string s).Simple) :
    Denotes Q (JsonValue.string s).text (.scalar (.string s)) :=
  (Lexes.string h).denotes (List.forall_mem_singleton.mpr trivial) fun _ _ => rfl

theorem IsWord.simple {s : Text} (h : IsWord s) : (JsonValue.string s).Simple := by
  intro c hc
  rcases h.2 c hc with halpha | rfl
  · have hne {mark : Char} (hmark : mark.isAlpha = false) : c ≠ mark := by
      rintro rfl
      cases halpha.symm.trans hmark
    have hcontrol : ∀ n < 32, (Char.ofNat n).isAlpha = false := by decide
    refine ⟨hne (by decide), hne (by decide), not_lt.mp fun hlt => ?_⟩
    have hfalse := hcontrol c.toNat hlt
    rw [Char.ofNat_toNat, halpha] at hfalse
    cases hfalse
  · decide

theorem isLiteral_of_spells {text : Text} {x : Scalar} (h : Spells text x) : IsLiteral text := by
  constructor
  · rintro rfl
    cases h.eq
  · intro c hc
    have hword := h.word c hc
    simp only [isWordChar, Bool.or_eq_true, decide_eq_true_eq] at hword
    tauto

/-- A member that is printed so is read as this one. -/
structure MemberDenotes (Q : ℚ → Prop) (f : Text × JsonValue) (m : Text × Value) : Prop where
  name : Lexes (quote :: f.1 ++ [quote]) [.scalar (.string m.1)]
  value : Denotes Q f.2.text m.2

theorem MemberDenotes.of_value {v : JsonValue} {value : Value} (h : Denotes Q v.text value)
    {k : Text} (hk : IsWord k) : MemberDenotes Q (k, v) (k, value) := ⟨Lexes.string hk.simple, h⟩

theorem denotes_number {n : ℤ} (h : Q n) :
    Denotes Q (JsonValue.number n).text (.scalar (.integer n)) :=
  (spells_toString n).denotes h

theorem exists_tokens_membersText {f : Text × JsonValue} {m : Text × Value}
    {fields : List (Text × JsonValue)} {members : List (Text × Value)} (hf : MemberDenotes Q f m)
    (h : List.Forall₂ (MemberDenotes Q) fields members) :
    ∃ ts : List Token, (∀ t ∈ ts, t.Holds Q) ∧
      (∀ c t us, isWordChar c = false → Lexes (c :: t) us →
        Lexes (membersText (f :: fields) ++ c :: t)
          (.scalar (.string m.1) :: .colon :: (ts ++ us))) ∧
      ∀ ms frames us, JsonText.read (.value (.object ms m.1 :: frames)) (ts ++ us) =
        JsonText.read (.afterMember (ms ++ m :: members) frames) us := by
  have hcolon : Lexes [':'] [.colon] := rfl
  have hcomma : Lexes [','] [.comma] := rfl
  induction h generalizing f m with
  | nil =>
    obtain ⟨hname, ts, hholds, hlexes, hread⟩ := hf
    refine ⟨ts, hholds, ?_, ?_⟩
    · intro c t us hc hend
      simpa [membersText] using hname.append (hcolon.append (hlexes c t us hc hend))
    · intro ms frames us
      exact hread (.object ms m.1 :: frames) us
  | @cons g n fields members hg _ ih =>
    obtain ⟨hname, ts, hholds, hlexes, hread⟩ := hf
    obtain ⟨rest, hrest, hrlexes, hrread⟩ := ih hg
    refine ⟨ts ++ .comma :: .scalar (.string n.1) :: .colon :: rest, ?_, ?_, ?_⟩
    · refine List.forall_mem_append.mpr ⟨hholds, ?_⟩
      simp only [List.forall_mem_cons]
      exact ⟨trivial, trivial, trivial, hrest⟩
    · intro c t us hc hend
      have htail := hlexes ',' _ _ (by decide) (hcomma.append (hrlexes c t us hc hend))
      simpa [membersText] using hname.append (hcolon.append htail)
    · intro ms frames us
      have hnext := hrread (ms ++ [m]) frames us
      rw [List.append_assoc, List.singleton_append] at hnext
      rw [← hnext, List.append_assoc, hread]
      rfl

theorem exists_tokens_objectText {fields : List (Text × JsonValue)}
    {members : List (Text × Value)} (h : List.Forall₂ (MemberDenotes Q) fields members) :
    ∃ ts : List Token, (∀ t ∈ ts, t.Holds Q) ∧ Lexes (objectText fields) ts ∧
      ∀ frames us, JsonText.read (.value frames) (ts ++ us) =
        JsonText.read (JsonText.deliver (.object members) frames) us := by
  have hopen : Lexes [Char.ofNat 123] [.openBrace] := rfl
  have hclose : Lexes [Char.ofNat 125] [.closeBrace] := rfl
  cases h with
  | nil =>
    refine ⟨[.openBrace, .closeBrace], ?_, hopen.append hclose, fun _ _ => rfl⟩
    exact List.forall_mem_cons.mpr ⟨trivial, List.forall_mem_singleton.mpr trivial⟩
  | @cons f m fields members hf hrest =>
    obtain ⟨ts, hholds, hlexes, hread⟩ := exists_tokens_membersText hf hrest
    refine ⟨.openBrace :: .scalar (.string m.1) :: .colon :: (ts ++ [.closeBrace]), ?_, ?_, ?_⟩
    · simp only [List.forall_mem_cons, List.forall_mem_append]
      exact ⟨trivial, trivial, trivial, hholds, trivial, List.forall_mem_nil _⟩
    · have hmembers := hlexes (.ofNat 125) [] _ (by decide) hclose
      simpa [objectText] using hopen.append hmembers
    · intro frames us
      have hall := hread [] frames (.closeBrace :: us)
      rw [List.nil_append] at hall
      simp only [List.cons_append, List.append_assoc, List.nil_append]
      exact hall

theorem denotes_objectText {fields : List (Text × JsonValue)} {members : List (Text × Value)}
    (h : List.Forall₂ (MemberDenotes Q) fields members) :
    Denotes Q (objectText fields) (.object members) := by
  obtain ⟨ts, hholds, hlexes, hread⟩ := exists_tokens_objectText h
  exact hlexes.denotes hholds hread

/-! ## Objects with words of any kind -/

/-- The value is a string, or a word that is read. -/
def JsonValue.IsRead : JsonValue → Prop
  | string _ => True
  | raw text => word? text ≠ none

theorem JsonValue.Simple.scan_text_eq_none {v : JsonValue} (hv : v.Simple) {c : Char}
    (hc : isWordChar c = false) (t : Text) (hbad : ¬ v.IsRead ∨ scan .between (c :: t) = none) :
    scan .between (v.text ++ c :: t) = none := by
  cases v with
  | string s =>
    have hlexes : Lexes (quote :: s ++ [quote]) [.scalar (.string s)] := Lexes.string hv
    rw [JsonValue.text, hlexes.scan_append, hbad.resolve_left (not_not.mpr trivial)]
    rfl
  | raw text =>
    have hchars : ∀ d ∈ text, isWordChar d = true := fun d hd => by
      have := hv.2 d hd
      simp only [isWordChar, Bool.or_eq_true, decide_eq_true_eq]
      tauto
    rw [JsonValue.text, scan_word_append hv.1 hchars hc]
    rcases hbad with hbad | hbad
    · rw [not_not.mp hbad]
      rfl
    · rw [hbad]
      cases word? text <;> rfl

theorem scan_member_eq_none {k : Text} (hk : IsWord k) {s : Text}
    (hs : scan .between s = none) : scan .between (quote :: k ++ quote :: ':' :: s) = none := by
  have hcolon : Lexes [':'] [.colon] := rfl
  have heq : quote :: k ++ quote :: ':' :: s = (quote :: k ++ [quote]) ++ ([':'] ++ s) := by simp
  have hname : Lexes (quote :: k ++ [quote]) [.scalar (.string k)] := Lexes.string hk.simple
  rw [heq, hname.scan_append, hcolon.scan_append, hs]
  rfl

theorem scan_membersText_eq_none {fields : List (Text × JsonValue)}
    (hword : ∀ f ∈ fields, IsWord f.1) (hsimple : ∀ f ∈ fields, f.2.Simple)
    (h : ¬ ∀ f ∈ fields, f.2.IsRead) {c : Char} (hc : isWordChar c = false) (t : Text) :
    scan .between (membersText fields ++ c :: t) = none := by
  induction fields with
  | nil => exact absurd (List.forall_mem_nil _) h
  | cons f fields ih =>
    obtain ⟨hk, hword⟩ := List.forall_mem_cons.mp hword
    obtain ⟨hv, hsimple⟩ := List.forall_mem_cons.mp hsimple
    cases fields with
    | nil =>
      have hbad : ¬ f.2.IsRead := fun hf => h (List.forall_mem_singleton.mpr hf)
      have hrest := scan_member_eq_none hk (hv.scan_text_eq_none hc t (.inl hbad))
      simpa [membersText] using hrest
    | cons g fields =>
      have hbad : ¬ f.2.IsRead ∨
          scan .between (',' :: (membersText (g :: fields) ++ c :: t)) = none := by
        by_cases hf : f.2.IsRead
        · have hcomma : Lexes [','] [.comma] := rfl
          right
          rw [← List.singleton_append, hcomma.scan_append,
            ih hword hsimple fun hall => h (List.forall_mem_cons.mpr ⟨hf, hall⟩)]
          rfl
        · exact .inl hf
      have hrest := scan_member_eq_none hk (hv.scan_text_eq_none (by decide) _ hbad)
      simpa [membersText] using hrest

/-- An object of words that are read is read, with its strings. -/
theorem exists_members {fields : List (Text × JsonValue)} (hword : ∀ f ∈ fields, IsWord f.1)
    (hsimple : ∀ f ∈ fields, f.2.Simple) (h : ∀ f ∈ fields, f.2.IsRead) :
    ∃ members, List.Forall₂ (MemberDenotes fun _ => True) fields members ∧
      members.map Prod.fst = fields.map Prod.fst ∧
      ∀ key s, (key, .string s) ∈ fields → (key, .scalar (.string s)) ∈ members := by
  induction fields with
  | nil => exact ⟨[], .nil, rfl, by simp⟩
  | cons f fields ih =>
    obtain ⟨hk, hword⟩ := List.forall_mem_cons.mp hword
    obtain ⟨hv, hsimple⟩ := List.forall_mem_cons.mp hsimple
    obtain ⟨hf, h⟩ := List.forall_mem_cons.mp h
    obtain ⟨members, hmembers, hnames, hstrings⟩ := ih hword hsimple h
    have hvalue : ∃ v, Denotes (fun _ => True) f.2.text v ∧
        ∀ s, f.2 = .string s → v = .scalar (.string s) := by
      cases hf2 : f.2 with
      | string s =>
        rw [hf2] at hv
        exact ⟨_, hv.denotes, fun s' hs => by rw [JsonValue.string.inj hs]⟩
      | raw text =>
        rw [hf2] at hv hf
        obtain ⟨x, hx⟩ := Option.ne_none_iff_exists'.mp hf
        have hspells : Spells text x := ⟨fun d hd => by
          have := hv.2 d hd
          simp only [isWordChar, Bool.or_eq_true, decide_eq_true_eq]
          tauto, hx⟩
        refine ⟨.scalar x, hspells.denotes ?_, fun s' hs => by cases hs⟩
        cases x <;> trivial
    obtain ⟨v, hv, hstring⟩ := hvalue
    refine ⟨(f.1, v) :: members, .cons (.of_value hv hk) hmembers, congrArg (f.1 :: ·) hnames,
      fun key s hm => ?_⟩
    rcases List.mem_cons.mp hm with rfl | hm
    · rw [← hstring s rfl]
      exact List.mem_cons_self
    · exact List.mem_cons_of_mem _ (hstrings key s hm)

end VeyraCam
