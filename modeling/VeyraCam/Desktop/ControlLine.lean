import VeyraCam.Protocol.Json

/-! # Control lines

The control socket carries lines of JSON, which the desktop reads with a small
value extractor of its own and writes by concatenation.
-/

namespace VeyraCam

/-- What follows the first occurrence of a non-empty text. -/
def afterFirst (needle : Text) : Text → Option Text
  | [] => none
  | c :: s =>
    if needle.isPrefixOf (c :: s) then some ((c :: s).drop needle.length) else afterFirst needle s

/-- `ExtractJsonString`: the value of the first occurrence of a key, as the text between the
quotation marks, or else up to the next comma or closing brace. -/
def extractJsonString (json key : Text) : Text :=
  match (afterFirst (quote :: key ++ [quote]) json).bind (afterFirst ":".toList) with
  | none => []
  | some rest =>
    match rest.dropWhile (" \t".toList.contains ·) with
    | [] => []
    | c :: value =>
      if c = quote then
        if value.contains quote then value.takeWhile (· ≠ quote) else []
      else
        if value.any (",\x7d".toList.contains ·) then
          c :: value.takeWhile (!",\x7d".toList.contains ·)
        else []

def isSpace (c : Char) : Bool := c.toNat = 32 || (9 ≤ c.toNat && c.toNat ≤ 13)

/-- `std::stoul` in base 10, for an `unsigned long` of the given width; `none` is either of
its exceptions. -/
def stoul (bits : ℕ) (str : Text) : Option ℕ :=
  let str := str.dropWhile isSpace
  let negative := str.head? = some (.ofNat 45)
  let str := if str.head?.any ("+-".toList.contains ·) then str.tail else str
  let digits := str.takeWhile Char.isDigit
  let value := digits.foldl (fun n c => 10 * n + (c.toNat - 48)) 0
  if digits.isEmpty || 2 ^ bits ≤ value then none
  else some (if negative then (2 ^ bits - value) % 2 ^ bits else value)

def jsonField (key value : Text) : Text :=
  quote :: key ++ quote :: ":".toList ++ quote :: value ++ [quote]

/-- `ServiceManager::BuildControlMessage`: the payload is merged in without its own braces. -/
def buildControlMessage (token type payloadJson : Text) : Text :=
  let auth := if token.isEmpty then [] else ",".toList ++ jsonField "auth_token".toList token
  let inner := if payloadJson.head? = some (.ofNat 123) then payloadJson.tail else payloadJson
  let inner := if inner.getLast? = some (.ofNat 125) then inner.dropLast else inner
  "\x7b".toList ++ jsonField "type".toList type ++ auth ++
    (if inner.isEmpty then [] else ",".toList ++ inner) ++ "\x7d".toList

section Reading

variable {needle key w s t : Text} {c d : Char}

theorem afterFirst_of_prefix (h : needle ≠ []) : afterFirst needle (needle ++ s) = some s := by
  cases needle with
  | nil => exact absurd rfl h
  | cons c needle =>
    have hp : (c :: needle).isPrefixOf (c :: (needle ++ s)) = true :=
      List.isPrefixOf_iff_prefix.mpr (List.prefix_append (c :: needle) s)
    simp [afterFirst, hp]

theorem afterFirst_cons_of_neg (h : ¬ needle <+: c :: s) :
    afterFirst needle (c :: s) = afterFirst needle s := by
  rw [afterFirst, if_neg (by rwa [List.isPrefixOf_iff_prefix])]

theorem afterFirst_skip (h : quote ∉ w) :
    afterFirst (quote :: needle) (w ++ s) = afterFirst (quote :: needle) s := by
  induction w with
  | nil => rfl
  | cons c w ih =>
    obtain ⟨hc, hw⟩ := List.ne_and_not_mem_of_not_mem_cons h
    rw [List.cons_append, afterFirst_cons_of_neg, ih hw]
    exact fun hp => hc (List.cons_prefix_cons.mp hp).1

theorem eq_of_marked (hkey : quote ∉ key) (hw : quote ∉ w)
    (h : key ++ [quote] <+: w ++ quote :: s) : key = w := by
  induction key generalizing w with
  | nil =>
    cases w with
    | nil => rfl
    | cons c w =>
      obtain ⟨rfl, -⟩ := List.cons_prefix_cons.mp h
      exact absurd List.mem_cons_self hw
  | cons c key ih =>
    cases w with
    | nil =>
      obtain ⟨rfl, -⟩ := List.cons_prefix_cons.mp h
      exact absurd List.mem_cons_self hkey
    | cons d w =>
      obtain ⟨rfl, hrest⟩ := List.cons_prefix_cons.mp h
      rw [ih (List.not_mem_of_not_mem_cons hkey) (List.not_mem_of_not_mem_cons hw) hrest]

theorem afterFirst_quoted (hkey : IsWord key) (hw : quote ∉ w) (hne : key ≠ w)
    (hd : d = ':' ∨ d = ',' ∨ d = .ofNat 125) :
    afterFirst (quote :: key ++ [quote]) (quote :: w ++ quote :: d :: s) =
      afterFirst (quote :: key ++ [quote]) (d :: s) := by
  have hopen : ¬ quote :: key ++ [quote] <+: quote :: w ++ quote :: d :: s := fun hp =>
    hne (eq_of_marked hkey.quote_notMem hw (List.cons_prefix_cons.mp hp).2)
  have hclose : ¬ quote :: key ++ [quote] <+: quote :: d :: s := by
    intro hp
    obtain ⟨c, key', rfl⟩ := List.exists_cons_of_ne_nil hkey.1
    obtain ⟨rfl, -⟩ := List.cons_prefix_cons.mp (List.cons_prefix_cons.mp hp).2
    have hc := hkey.2 c List.mem_cons_self
    rcases hd with rfl | rfl | rfl <;> exact absurd hc (by decide)
  rw [List.cons_append, List.cons_append] at hopen ⊢
  rw [List.cons_append] at hclose
  rw [afterFirst_cons_of_neg hopen, afterFirst_skip hw,
    afterFirst_cons_of_neg hclose]

theorem afterFirst_member {k : Text} {v : JsonValue} {names : List Text} (hkey : IsWord key)
    (hmem : key ∈ names) (hk : IsWord k) (hne : key ≠ k) (hv : v.Plain names)
    (hd : d = ',' ∨ d = .ofNat 125) :
    afterFirst (quote :: key ++ [quote]) (quote :: k ++ quote :: ':' :: v.text ++ d :: s) =
      afterFirst (quote :: key ++ [quote]) (d :: s) := by
  have hcolon : ':' ≠ quote := by decide
  have hlist : quote :: k ++ quote :: ':' :: v.text ++ d :: s =
      quote :: k ++ quote :: ':' :: (v.text ++ d :: s) := by simp
  rw [hlist, afterFirst_quoted hkey hk.quote_notMem hne (.inl rfl)]
  have hskip : afterFirst (quote :: key ++ [quote]) (':' :: (v.text ++ d :: s)) =
      afterFirst (quote :: key ++ [quote]) (v.text ++ d :: s) :=
    afterFirst_skip (w := [':']) (by simpa using hcolon.symm)
  rw [hskip]
  cases v with
  | string w =>
    have hw : key ≠ w := fun h => hv.2 (h ▸ hmem)
    have hlist : (JsonValue.string w).text ++ d :: s = quote :: w ++ quote :: d :: s := by
      simp [JsonValue.text]
    rw [hlist, afterFirst_quoted hkey hv.1 hw (.inr hd)]
  | raw w => exact afterFirst_skip hv

theorem afterFirst_membersText {v : JsonValue} {names : List Text} (hkey : IsWord key)
    (hmem : key ∈ names) {pre post : List (Text × JsonValue)}
    (hpre : ∀ f ∈ pre, IsWord f.1 ∧ key ≠ f.1 ∧ f.2.Plain names) (t : Text) :
    afterFirst (quote :: key ++ [quote]) (membersText (pre ++ (key, v) :: post) ++ t) =
      some (':' :: v.text ++ ((if post = [] then [] else ',' :: membersText post) ++ t)) := by
  induction pre with
  | nil =>
    have hfound (rest : Text) : afterFirst (quote :: key ++ [quote])
        (quote :: key ++ quote :: ':' :: v.text ++ rest) = some (':' :: v.text ++ rest) := by
      have h : afterFirst (quote :: key ++ [quote])
          ((quote :: key ++ [quote]) ++ (':' :: v.text ++ rest)) = some (':' :: v.text ++ rest) :=
        afterFirst_of_prefix (by simp)
      simpa using h
    cases post with
    | nil => exact hfound t
    | cons f post =>
      rw [← hfound, List.nil_append, membersText]
      simp
  | cons f pre ih =>
    obtain ⟨k, w⟩ := f
    obtain ⟨⟨hword, hne, hplain⟩, hpre⟩ := List.forall_mem_cons.mp hpre
    obtain ⟨g, gs, hg⟩ := List.exists_cons_of_ne_nil
      (show pre ++ (key, v) :: post ≠ [] by simp)
    have hfields : (k, w) :: pre ++ (key, v) :: post = (k, w) :: g :: gs := by
      rw [List.cons_append, hg]
    rw [hfields, ← ih hpre, hg]
    have hmember := afterFirst_member (s := membersText (g :: gs) ++ t) hkey hmem hword hne
      hplain (.inl rfl)
    have hcomma : afterFirst (quote :: key ++ [quote]) ([','] ++ (membersText (g :: gs) ++ t)) =
        afterFirst (quote :: key ++ [quote]) (membersText (g :: gs) ++ t) :=
      afterFirst_skip (by decide)
    rw [← hcomma, List.singleton_append, ← hmember]
    simp [membersText]

theorem bind_afterFirst_objectText {names : List Text} (hkey : IsWord key) (hmem : key ∈ names)
    {pre : List (Text × JsonValue)} (hpre : ∀ f ∈ pre, IsWord f.1 ∧ key ≠ f.1 ∧ f.2.Plain names)
    (v : JsonValue) (post : List (Text × JsonValue)) :
    (afterFirst (quote :: key ++ [quote]) (objectText (pre ++ (key, v) :: post))).bind
        (afterFirst ":".toList) =
      some (v.text ++ ((if post = [] then [] else ',' :: membersText post) ++ [.ofNat 125])) := by
  have hbrace : afterFirst (quote :: key ++ [quote])
      ([.ofNat 123] ++ (membersText (pre ++ (key, v) :: post) ++ [.ofNat 125])) =
        some (':' :: v.text ++ _) :=
    (afterFirst_skip (by decide)).trans (afterFirst_membersText hkey hmem hpre [.ofNat 125])
  change (afterFirst (quote :: key ++ [quote]) ([Char.ofNat 123] ++
    (membersText (pre ++ (key, v) :: post) ++ [Char.ofNat 125]))).bind _ = _
  rw [hbrace, Option.bind_some]
  have hcolon : ":".toList ≠ [] := by decide
  exact afterFirst_of_prefix hcolon

/-- The extractor finds a string member behind plain ones. -/
theorem extractJsonString_member {names : List Text} (hkey : IsWord key) (hmem : key ∈ names)
    (hquote : quote ∉ s) {pre post : List (Text × JsonValue)}
    (hpre : ∀ f ∈ pre, IsWord f.1 ∧ key ≠ f.1 ∧ f.2.Plain names) :
    extractJsonString (objectText (pre ++ (key, .string s) :: post)) key = s := by
  have hfound := bind_afterFirst_objectText hkey hmem hpre (.string s) post
  generalize (if post = [] then [] else ',' :: membersText post) ++ [Char.ofNat 125] = rest
    at hfound
  have htext : (JsonValue.string s).text ++ rest = quote :: (s ++ quote :: rest) := by
    simp [JsonValue.text]
  have hspace : (quote :: (s ++ quote :: rest)).dropWhile (" \t".toList.contains ·) =
      quote :: (s ++ quote :: rest) := List.dropWhile_cons_of_neg (by decide)
  have hend : (s ++ quote :: rest).contains quote = true := by simp
  have htake : (s ++ quote :: rest).takeWhile (· ≠ quote) = s := by
    rw [List.takeWhile_append_of_pos fun c hc => decide_eq_true (ne_of_mem_of_not_mem hc hquote)]
    simp
  unfold extractJsonString
  rw [hfound, htext]
  dsimp only
  rw [hspace]
  dsimp only
  rw [if_pos rfl, if_pos hend, htake]

theorem IsLiteral.contains_eq_false (h : IsLiteral s) {marks : Text}
    (hmarks : marks.any (fun d => d.isAlphanum || d = '.' || d = '-' || d = '+') = false)
    (hc : c ∈ s) : marks.contains c = false := by
  rw [List.contains_eq_mem, decide_eq_false_iff_not]
  intro hmark
  have hnot := List.any_eq_false.mp hmarks c hmark
  simp only [Bool.or_eq_true, decide_eq_true_eq, or_assoc] at hnot
  exact hnot (h.2 c hc)

theorem extractJsonString_literal {names : List Text} (hkey : IsWord key) (hmem : key ∈ names)
    (hs : IsLiteral s) {pre post : List (Text × JsonValue)}
    (hpre : ∀ f ∈ pre, IsWord f.1 ∧ key ≠ f.1 ∧ f.2.Plain names) :
    extractJsonString (objectText (pre ++ (key, .raw s) :: post)) key = s := by
  obtain ⟨d, rest, hd, hrest⟩ : ∃ d rest, ",\x7d".toList.contains d = true ∧
      (if post = [] then [] else ',' :: membersText post) ++ [Char.ofNat 125] = d :: rest := by
    split_ifs
    · exact ⟨.ofNat 125, [], by decide, rfl⟩
    · exact ⟨',', _, by decide, rfl⟩
  have hfound := bind_afterFirst_objectText hkey hmem hpre (.raw s) post
  rw [hrest] at hfound
  obtain ⟨c, value, rfl⟩ := List.exists_cons_of_ne_nil hs.1
  have hblank : " \t".toList.contains c = false :=
    hs.contains_eq_false (by decide) List.mem_cons_self
  have hquote : c ≠ quote := by
    have hmark : [quote].contains c = false := hs.contains_eq_false (by decide) List.mem_cons_self
    simpa using hmark
  have htake : (value ++ d :: rest).takeWhile (!",\x7d".toList.contains ·) = value := by
    have hvalue : ∀ e ∈ value, (!",\x7d".toList.contains e) = true := fun e he => by
      rw [hs.contains_eq_false (by decide) (List.mem_cons_of_mem c he)]
      rfl
    rw [List.takeWhile_append_of_pos hvalue, List.takeWhile_cons_of_neg (by rw [hd]; decide),
      List.append_nil]
  have hend : (value ++ d :: rest).any (",\x7d".toList.contains ·) = true := by
    rw [List.any_append, List.any_cons, hd]
    simp
  unfold extractJsonString
  rw [hfound]
  change (match (c :: (value ++ d :: rest)).dropWhile _ with | [] => _ | c :: value => _) = _
  rw [List.dropWhile_cons_of_neg (by rw [hblank]; decide)]
  dsimp only
  rw [if_neg hquote, if_pos hend, htake]

/-- The first member is found whatever follows it. -/
theorem extractJsonString_first (hkey : IsWord key) (hquote : quote ∉ s)
    (fields : List (Text × JsonValue)) :
    extractJsonString (objectText ((key, .string s) :: fields)) key = s :=
  extractJsonString_member hkey (List.mem_singleton_self key) hquote (List.forall_mem_nil _)

theorem Readable.exists_split {v : JsonValue} {fields : List (Text × JsonValue)}
    (h : Readable fields) (hm : (key, v) ∈ fields) :
    ∃ pre post, fields = pre ++ (key, v) :: post ∧
      ∀ f ∈ pre, IsWord f.1 ∧ key ≠ f.1 ∧ f.2.Plain (fields.map Prod.fst) := by
  obtain ⟨pre, post, rfl⟩ := List.append_of_mem hm
  refine ⟨pre, post, rfl, fun f hf => ?_⟩
  have hin := List.mem_append_left ((key, v) :: post) hf
  refine ⟨h.word f hin, fun he => ?_, h.plain f hin⟩
  have hnodup := h.nodup
  rw [List.map_append, List.map_cons] at hnodup
  exact (List.nodup_append.mp hnodup).2.2 f.1 (List.mem_map_of_mem hf) key
    List.mem_cons_self he.symm

theorem Readable.extractJsonString {fields : List (Text × JsonValue)} (h : Readable fields)
    (hm : (key, .string s) ∈ fields) :
    VeyraCam.extractJsonString (objectText fields) key = s := by
  have hword := h.word _ hm
  have hquote := (h.plain _ hm).1
  have hmem := List.mem_map_of_mem (f := Prod.fst) hm
  obtain ⟨pre, post, rfl, hpre⟩ := h.exists_split hm
  exact extractJsonString_member hword hmem hquote hpre

theorem Readable.extractJsonString_literal {fields : List (Text × JsonValue)} (h : Readable fields)
    (hm : (key, .raw s) ∈ fields) (hs : IsLiteral s) :
    VeyraCam.extractJsonString (objectText fields) key = s := by
  have hword := h.word _ hm
  have hmem := List.mem_map_of_mem (f := Prod.fst) hm
  obtain ⟨pre, post, rfl, hpre⟩ := h.exists_split hm
  exact VeyraCam.extractJsonString_literal hword hmem hs hpre

end Reading

end VeyraCam
