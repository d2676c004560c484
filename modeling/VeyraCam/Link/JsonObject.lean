import VeyraCam.Link.Challenge
import VeyraCam.Protocol.JsonReading

/-! # The JSON library of the phone

What the phone relies on in `JSONObject` and its `optString`, and a parser to
evaluate the model on, of which this is true.
-/

namespace VeyraCam

open JsonText

/-- Up to here numbers are in the range of a `double`. -/
def largestNumber : ℕ := 2 ^ 1023

theorem le_largestNumber {n : ℕ} (h : n ≤ 2 ^ 256) : n ≤ largestNumber := by
  have hexponent : 256 ≤ 1023 := by decide
  exact h.trans (pow_right_monotone one_le_two hexponent)

def InRange (x : ℚ) : Prop := |x| ≤ largestNumber

/-- What the phone's JSON library is relied on for: an object with different names and numbers in
range is parsed, and its strings are what they stand for. -/
def Android.FollowsJson (android : Android) : Prop :=
  ∀ text ts members, tokens? text = some ts → (∀ t ∈ ts, t.Holds InRange) →
    JsonText.read (.value []) ts = some (.object members) → (members.map Prod.fst).Nodup →
    ∃ field, android.parseJson text = some field ∧
      ∀ key s, (key, .scalar (.string s)) ∈ members → field key = s

/-- The same, with what `optString` gives for a name that is not there, and for the strings of an
object with other bare words: these it may refuse, as it does with `NaN`. -/
structure Android.ReadsJson (android : Android) : Prop where
  follows : android.FollowsJson
  missing : ∀ text ts members, tokens? text = some ts → (∀ t ∈ ts, t.Holds InRange) →
    JsonText.read (.value []) ts = some (.object members) → (members.map Prod.fst).Nodup →
    ∀ field, android.parseJson text = some field →
      ∀ key, key ∉ members.map Prod.fst → field key = []
  words : ∀ fields, Readable fields → (∀ f ∈ fields, f.2.Simple) →
    ∀ field, android.parseJson (objectText fields) = some field →
      ∀ key s, (key, .string s) ∈ fields → field key = s

section Reading

variable {android : Android} {fields : List (Text × JsonValue)} {members : List (Text × Value)}

theorem exists_tokens_of_denotes (h : List.Forall₂ (MemberDenotes InRange) fields members) :
    ∃ ts, tokens? (objectText fields) = some ts ∧ (∀ t ∈ ts, t.Holds InRange) ∧
      JsonText.read (.value []) ts = some (.object members) := by
  obtain ⟨ts, hholds, hlexes, hread⟩ := exists_tokens_objectText h
  have hvalue := hread [] []
  rw [List.append_nil] at hvalue
  exact ⟨ts, hlexes.tokens?_eq, hholds, hvalue⟩

theorem Android.FollowsJson.parses (h : android.FollowsJson)
    (hfields : List.Forall₂ (MemberDenotes InRange) fields members)
    (hnodup : (members.map Prod.fst).Nodup) :
    ∃ field, android.parseJson (objectText fields) = some field ∧
      ∀ key s, (key, .scalar (.string s)) ∈ members → field key = s := by
  obtain ⟨ts, htokens, hholds, hread⟩ := exists_tokens_of_denotes hfields
  exact h _ ts members htokens hholds hread hnodup

theorem Android.ReadsJson.optString_eq_nil (h : android.ReadsJson)
    (hfields : List.Forall₂ (MemberDenotes InRange) fields members)
    (hnodup : (members.map Prod.fst).Nodup) {field : Text → Text}
    (hfield : android.parseJson (objectText fields) = some field) {key : Text}
    (hkey : key ∉ members.map Prod.fst) : field key = [] := by
  obtain ⟨ts, htokens, hholds, hread⟩ := exists_tokens_of_denotes hfields
  exact h.missing _ ts members htokens hholds hread hnodup field hfield key hkey

end Reading

def Android.json : Android :=
  { Android.standard with
    parseJson := fun line =>
      match decode line with
      | some (.object members) => some fun key =>
        match lookup members key with
        | some (.scalar (.string s)) => s
        | _ => []
      | _ => none }

namespace Android

theorem json_parseJson {text : Text} {members : List (Text × Value)}
    (h : decode text = some (.object members)) :
    json.parseJson text = some fun key =>
      match lookup members key with
      | some (.scalar (.string s)) => s
      | _ => [] := by
  unfold json
  dsimp only
  split
  case h_1 members' hdecode =>
    obtain rfl : members' = members := by
      rw [h] at hdecode
      cases hdecode
      rfl
    rfl
  case h_2 hnot => exact absurd h (hnot members)

theorem decode_of_tokens {text : Text} {ts : List Token} {value : Value}
    (htokens : tokens? text = some ts) (hread : JsonText.read (.value []) ts = some value) :
    decode text = some value := by
  rw [decode, htokens]
  exact hread

theorem json_followsJson : json.FollowsJson := by
  intro text ts members htokens _ hread hnodup
  refine ⟨_, json_parseJson (decode_of_tokens htokens hread), fun key s hm => ?_⟩
  rw [lookup_of_mem hnodup hm]

theorem json_readsJson : json.ReadsJson where
  follows := json_followsJson
  missing text ts members htokens _ hread _ field hfield key hkey := by
    obtain rfl := Option.some.inj
      ((json_parseJson (decode_of_tokens htokens hread)).symm.trans hfield)
    dsimp only
    rw [lookup_eq_none hkey]
  words fields hreadable hsimple field hfield key s hm := by
    by_cases hread : ∀ f ∈ fields, f.2.IsRead
    · obtain ⟨members, hmembers, hnames, hstrings⟩ := exists_members hreadable.word hsimple hread
      obtain ⟨ts, -, hlexes, hvalue⟩ := exists_tokens_objectText hmembers
      have hnil := hvalue [] []
      rw [List.append_nil] at hnil
      have hnodup := hreadable.nodup
      rw [← hnames] at hnodup
      obtain rfl := Option.some.inj
        ((json_parseJson (decode_of_tokens hlexes.tokens?_eq hnil)).symm.trans hfield)
      dsimp only
      rw [lookup_of_mem hnodup (hstrings key s hm)]
    · -- a word that is not read makes the parser refuse the object
      have hopen : Lexes [Char.ofNat 123] [.openBrace] := rfl
      have hscan := scan_membersText_eq_none hreadable.word hsimple hread
        (c := .ofNat 125) (by decide) []
      have htokens : tokens? (objectText fields) = none := by
        rw [tokens?, objectText, List.cons_append, ← List.singleton_append, hopen.scan_append,
          hscan]
        rfl
      simp only [json, decode, htokens, Option.bind_none] at hfield
      cases hfield

end Android

end VeyraCam
