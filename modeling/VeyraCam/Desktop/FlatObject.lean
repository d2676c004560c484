import Mathlib.Data.List.Infix
import VeyraCam.Desktop.ControlLine
import VeyraCam.Protocol.JsonReading

/-! # Flat objects in the extractor

The extractor looks for a key between quotation marks and takes what stands behind
the next colon, also when the marks are not those of a name. It reads an object as
a JSON reader does when the first such place is the name.
-/

namespace VeyraCam

open JsonText

/-! ## Places in a text -/

/-- The first place of the needle is before the rest. -/
def FirstPlace (needle s rest : Text) : Prop :=
  ∃ before, s = before ++ needle ++ rest ∧
    ∀ before' rest', s = before' ++ needle ++ rest' → before.length ≤ before'.length

section Places

variable {needle s rest : Text} {c : Char}

theorem firstPlace_of_begins (h : needle <+: s) : FirstPlace needle s (s.drop needle.length) := by
  obtain ⟨rest, rfl⟩ := h
  exact ⟨[], by simp, fun _ _ _ => Nat.zero_le _⟩

theorem firstPlace_cons (h : ¬ needle <+: c :: s) (hplace : FirstPlace needle s rest) :
    FirstPlace needle (c :: s) rest := by
  obtain ⟨before, rfl, hfirst⟩ := hplace
  refine ⟨c :: before, rfl, fun before' rest' hs => ?_⟩
  cases before' with
  | nil => exact absurd ⟨rest', hs.symm⟩ h
  | cons d before' =>
    have htail : before ++ needle ++ rest = before' ++ needle ++ rest' := (List.cons.inj hs).2
    exact Nat.succ_le_succ (hfirst before' rest' htail)

theorem firstPlace_of_afterFirst (h : afterFirst needle s = some rest) :
    FirstPlace needle s rest := by
  induction s with
  | nil => cases h
  | cons c s ih =>
    rw [afterFirst] at h
    split_ifs at h with hbegins
    · obtain rfl := Option.some.inj h
      exact firstPlace_of_begins (List.isPrefixOf_iff_prefix.mp hbegins)
    · exact firstPlace_cons (by rwa [List.isPrefixOf_iff_prefix] at hbegins) (ih h)

theorem afterFirst_eq_none_iff (hne : needle ≠ []) :
    afterFirst needle s = none ↔ ¬ needle <:+: s := by
  induction s with
  | nil => simp [afterFirst, hne]
  | cons c s ih =>
    rw [afterFirst, List.infix_cons_iff, ← List.isPrefixOf_iff_prefix]
    split_ifs with hbegins
    · simp [hbegins]
    · simp [hbegins, ih]

theorem FirstPlace.unique {rest' : Text} (h : FirstPlace needle s rest)
    (h' : FirstPlace needle s rest') : rest = rest' := by
  obtain ⟨before, hs, hfirst⟩ := h
  obtain ⟨before', hs', hfirst'⟩ := h'
  have hlength := le_antisymm (hfirst before' rest' hs') (hfirst' before rest hs)
  have htexts := hs.symm.trans hs'
  rw [List.append_assoc, List.append_assoc] at htexts
  exact List.append_cancel_left (List.append_inj htexts hlength).2

theorem FirstPlace.afterFirst_eq (h : FirstPlace needle s rest) (hne : needle ≠ []) :
    afterFirst needle s = some rest := by
  cases hafter : afterFirst needle s with
  | none =>
    obtain ⟨before, rfl, -⟩ := h
    exact absurd (List.infix_append before needle rest) ((afterFirst_eq_none_iff hne).mp hafter)
  | some rest' => rw [h.unique (firstPlace_of_afterFirst hafter)]

end Places

/-! ## Values in a text -/

/-- The value that stands at the beginning of a text. -/
inductive Shows : Text → Text → Prop
  | blank {c : Char} {s v : Text} (hc : c = ' ' ∨ c = '\t') (h : Shows s v) : Shows (c :: s) v
  | quoted {v more : Text} (hv : quote ∉ v) : Shows (quote :: (v ++ quote :: more)) v
  | bare {c d : Char} {v more : Text} (hc : c ≠ ' ' ∧ c ≠ '\t' ∧ c ≠ quote)
    (hv : ∀ e ∈ v, e ≠ ',' ∧ e ≠ .ofNat 125) (hd : d = ',' ∨ d = .ofNat 125) :
    Shows (c :: (v ++ d :: more)) (c :: v)

/-- The end of `ExtractJsonString`, behind the colon. -/
def valueAt (s : Text) : Text :=
  match s.dropWhile (" \t".toList.contains ·) with
  | [] => []
  | c :: value =>
    if c = quote then
      if value.contains quote then value.takeWhile (· ≠ quote) else []
    else
      if value.any (",\x7d".toList.contains ·) then
        c :: value.takeWhile (!",\x7d".toList.contains ·)
      else []

theorem extractJsonString_eq (json key : Text) :
    extractJsonString json key = (((afterFirst (quote :: key ++ [quote]) json).bind
      (afterFirst ":".toList)).map valueAt).getD [] := by
  unfold extractJsonString
  cases (afterFirst (quote :: key ++ [quote]) json).bind (afterFirst ":".toList) <;> rfl

section Values

variable {s v : Text} {c : Char}

theorem contains_blank_iff : " \t".toList.contains c = true ↔ c = ' ' ∨ c = '\t' := by simp

theorem contains_end_iff : ",\x7d".toList.contains c = true ↔ c = ',' ∨ c = .ofNat 125 := by simp

theorem valueAt_of_blank (hc : c = ' ' ∨ c = '\t') : valueAt (c :: s) = valueAt s := by
  rw [valueAt, List.dropWhile_cons_of_pos (contains_blank_iff.mpr hc)]
  rfl

theorem valueAt_of_ne_blank (hc : ¬ (c = ' ' ∨ c = '\t')) :
    valueAt (c :: s) =
      if c = quote then if s.contains quote then s.takeWhile (· ≠ quote) else []
      else if s.any (",\x7d".toList.contains ·) then
        c :: s.takeWhile (!",\x7d".toList.contains ·)
      else [] := by
  rw [valueAt, List.dropWhile_cons_of_neg (fun h => hc (contains_blank_iff.mp h))]

theorem takeWhile_ne_quote (hv : quote ∉ v) (more : Text) :
    (v ++ quote :: more).takeWhile (· ≠ quote) = v := by
  rw [List.takeWhile_append_of_pos fun c hc => decide_eq_true (ne_of_mem_of_not_mem hc hv)]
  simp

theorem contains_end_of_ne (h : c ≠ ',' ∧ c ≠ .ofNat 125) : ",\x7d".toList.contains c = false :=
  Bool.eq_false_iff.mpr fun hend => (contains_end_iff.mp hend).elim h.1 h.2

theorem takeWhile_end {d : Char} (hv : ∀ e ∈ v, e ≠ ',' ∧ e ≠ .ofNat 125)
    (hd : d = ',' ∨ d = .ofNat 125) (more : Text) :
    (v ++ d :: more).takeWhile (!",\x7d".toList.contains ·) = v := by
  have hbare : ∀ e ∈ v, (!",\x7d".toList.contains e) = true := fun e he => by
    rw [contains_end_of_ne (hv e he)]
    rfl
  rw [List.takeWhile_append_of_pos hbare,
    List.takeWhile_cons_of_neg (by rw [contains_end_iff.mpr hd]; decide), List.append_nil]

theorem Shows.valueAt_eq (h : Shows s v) : valueAt s = v := by
  induction h with
  | blank hc _ ih => rw [valueAt_of_blank hc, ih]
  | quoted hv =>
    rw [valueAt_of_ne_blank (by decide), if_pos rfl, if_pos (by simp), takeWhile_ne_quote hv]
  | @bare c d v more hc hv hd =>
    have hended : (v ++ d :: more).any (",\x7d".toList.contains ·) = true := by
      rw [List.any_append, List.any_cons, contains_end_iff.mpr hd]
      simp
    rw [valueAt_of_ne_blank (not_or.mpr ⟨hc.1, hc.2.1⟩), if_neg hc.2.2, if_pos hended,
      takeWhile_end hv hd]
end Values

theorem extractJsonString_of_shows {json key rest after v : Text}
    (hplace : FirstPlace (quote :: key ++ [quote]) json rest)
    (hcolon : FirstPlace ":".toList rest after) (h : Shows after v) :
    extractJsonString json key = v := by
  rw [extractJsonString_eq, hplace.afterFirst_eq (by simp), Option.bind_some,
    hcolon.afterFirst_eq (by decide), Option.map_some, Option.getD_some, h.valueAt_eq]

theorem extractJsonString_of_not_infix {json key : Text}
    (h : ¬ quote :: key ++ [quote] <:+: json) : extractJsonString json key = [] := by
  rw [extractJsonString_eq, (afterFirst_eq_none_iff (by simp)).mpr h]
  rfl

/-! ## Flat objects -/

/-- A string that needs no escape, or the text of another scalar. -/
inductive FlatValue where
  | string (s : Text) (plain : (JsonValue.string s).Simple)
  | literal (text : Text) (x : Scalar) (spells : Spells text x)

namespace FlatValue

def text : FlatValue → Text
  | string s _ => quote :: s ++ [quote]
  | literal text _ _ => text

def shown : FlatValue → Text
  | string s _ => s
  | literal text _ _ => text

def scalar : FlatValue → Scalar
  | string s _ => .string s
  | literal _ x _ => x

end FlatValue

theorem FlatValue.denotes (v : FlatValue) : Denotes (fun _ => True) v.text (.scalar v.scalar) := by
  cases v with
  | string s plain => exact plain.denotes
  | literal text x spells => exact spells.denotes (by cases x <;> trivial)

/-- A member, with its name as it is written and blanks after the colon. -/
structure FlatMember where
  name : Text
  written : Text
  reads : Lexes (quote :: written ++ [quote]) [.scalar (.string name)]
  blanks : Text
  blank : ∀ c ∈ blanks, c = ' ' ∨ c = '\t'
  value : FlatValue

def FlatMember.field (m : FlatMember) : Text × JsonValue :=
  (m.written, .raw (m.blanks ++ m.value.text))

theorem shows_blanks {blanks s v : Text} (hblanks : ∀ c ∈ blanks, c = ' ' ∨ c = '\t')
    (h : Shows s v) : Shows (blanks ++ s) v := by
  induction blanks with
  | nil => exact h
  | cons c blanks ih =>
    obtain ⟨hc, hblanks⟩ := List.forall_mem_cons.mp hblanks
    exact .blank hc (ih hblanks)

theorem FlatValue.shows (v : FlatValue) {d : Char} (hd : d = ',' ∨ d = .ofNat 125) (more : Text) :
    Shows (v.text ++ d :: more) v.shown := by
  cases v with
  | string s plain =>
    have hquoted : Shows (quote :: (s ++ quote :: d :: more)) s :=
      .quoted (JsonValue.Simple.quote_notMem plain)
    simpa [FlatValue.text, FlatValue.shown] using hquoted
  | literal text x spells =>
    obtain ⟨hword, heq⟩ := spells
    cases text with
    | nil => cases heq
    | cons c text =>
      have hne {e : Char} (he : isWordChar e = true) {mark : Char}
          (hmark : isWordChar mark = false) : e ≠ mark := by
        rintro rfl
        cases he.symm.trans hmark
      obtain ⟨hc, htext⟩ := List.forall_mem_cons.mp hword
      exact .bare ⟨hne hc (by decide), hne hc (by decide), hne hc (by decide)⟩
        (fun e he => ⟨hne (htext e he) (by decide), hne (htext e he) (by decide)⟩) hd

structure FlatObject where
  members : List FlatMember
  nodup : (members.map FlatMember.name).Nodup

namespace FlatObject

def text (o : FlatObject) : Text := objectText (o.members.map FlatMember.field)

def bound (o : FlatObject) (key : Text) : Text :=
  ((o.members.find? (·.name = key)).map (·.value.shown)).getD []

/-- What stands behind the name of a member, with the members after it. -/
def behind (m : FlatMember) (post : List FlatMember) : Text :=
  ':' :: (m.blanks ++ m.value.text) ++
    ((if post = [] then [] else ',' :: membersText (post.map FlatMember.field)) ++ [.ofNat 125])

/-- The first place of the key between quotation marks is the name of its member. Without a
member there is no place. -/
def OwnFirst (o : FlatObject) (key : Text) : Prop :=
  (∃ pre m post, o.members = pre ++ m :: post ∧ m.name = key ∧
    FirstPlace (quote :: key ++ [quote]) o.text (behind m post)) ∨
  ((∀ m ∈ o.members, m.name ≠ key) ∧ ¬ quote :: key ++ [quote] <:+: o.text)

variable {o : FlatObject} {key : Text} {m : FlatMember} {pre post : List FlatMember}

/-- A JSON reader reads the object as its members. -/
theorem decode_text (o : FlatObject) :
    decode o.text = some (.object (o.members.map fun m => (m.name, .scalar m.value.scalar))) := by
  have hfields : List.Forall₂ (MemberDenotes fun _ => True) (o.members.map FlatMember.field)
      (o.members.map fun m => (m.name, .scalar m.value.scalar)) := by
    rw [List.forall₂_map_left_iff, List.forall₂_map_right_iff, List.forall₂_same]
    exact fun m _ => ⟨m.reads, m.value.denotes.of_blanks m.blank⟩
  obtain ⟨ts, -, hlexes, hread⟩ := exists_tokens_objectText hfields
  have hvalue := hread [] []
  rw [List.append_nil] at hvalue
  rw [decode, text, hlexes.tokens?_eq]
  exact hvalue

theorem bound_of_append (h : o.members = pre ++ m :: post) : o.bound m.name = m.value.shown := by
  have hnodup := o.nodup
  rw [h, List.map_append, List.map_cons] at hnodup
  have hpre : pre.find? (·.name = m.name) = none := by
    rw [List.find?_eq_none]
    intro n hn
    have hne := (List.nodup_append.mp hnodup).2.2 n.name (List.mem_map_of_mem hn) m.name
      List.mem_cons_self
    simpa using hne
  rw [bound, h, List.find?_append, hpre, Option.none_or, List.find?_cons_of_pos (by simp)]
  rfl

theorem bound_of_forall_ne (h : ∀ m ∈ o.members, m.name ≠ key) : o.bound key = [] := by
  have hnone : o.members.find? (·.name = key) = none := by
    rw [List.find?_eq_none]
    intro m hm
    simpa using h m hm
  rw [bound, hnone]
  rfl

theorem exists_shows_of_behind (m : FlatMember) (post : List FlatMember) :
    ∃ after, FirstPlace ":".toList (behind m post) after ∧ Shows after m.value.shown := by
  have htail : ∃ d more, (d = ',' ∨ d = .ofNat 125) ∧
      (if post = [] then [] else ',' :: membersText (post.map FlatMember.field)) ++
        [Char.ofNat 125] = d :: more := by
    split_ifs
    · exact ⟨.ofNat 125, [], .inr rfl, rfl⟩
    · exact ⟨',', _, .inl rfl, rfl⟩
  obtain ⟨d, more, hd, htail⟩ := htail
  have hplace : ":".toList <+: behind m post := ⟨_, rfl⟩
  refine ⟨_, firstPlace_of_begins hplace, ?_⟩
  have hshows := shows_blanks m.blank (m.value.shows hd more)
  rw [← htail] at hshows
  simpa [behind] using hshows

/-- The extractor returns the text of the bound value where the first place of the key is its
name. -/
theorem extractJsonString_eq_bound (h : o.OwnFirst key) :
    extractJsonString o.text key = o.bound key := by
  rcases h with ⟨pre, m, post, hmembers, rfl, hplace⟩ | ⟨hnone, hplace⟩
  · obtain ⟨after, hcolon, hshows⟩ := exists_shows_of_behind m post
    rw [bound_of_append hmembers]
    exact extractJsonString_of_shows hplace hcolon hshows
  · rw [bound_of_forall_ne hnone]
    exact extractJsonString_of_not_infix hplace

def sample : FlatObject where
  members :=
    [⟨"reason".toList, "reason".toList, rfl, [], by simp, .string "token".toList (by decide)⟩,
      ⟨"type".toList, "type".toList, rfl, [], by simp, .string "pairing_ok".toList (by decide)⟩,
      ⟨"token".toList, "token".toList, rfl, [], by simp, .string "abc".toList (by decide)⟩]
  nodup := by decide

theorem extractJsonString_eq_bound_sample :
    extractJsonString sample.text "type".toList = sample.bound "type".toList :=
  extractJsonString_eq_bound
    (.inl ⟨_ :: [], _, [_], rfl, rfl, firstPlace_of_afterFirst (by decide)⟩)

/-- The value that spells the key is taken for its name. -/
theorem not_extractJsonString_eq_bound :
    ¬ ∀ (o : FlatObject) (key : Text), extractJsonString o.text key = o.bound key := by
  intro h
  have hread := h sample "token".toList
  revert hread
  decide

-- The value that spells the key stands first, and the text of the member shows by coincidence.
example :
    extractJsonString "\x7b\"reason\":\"type\",\"type\":\"x\"\x7d".toList "type".toList =
      "x".toList := by
  decide

end FlatObject

end VeyraCam
