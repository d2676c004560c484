import Mathlib.Data.Finset.Card
import Mathlib.Data.List.Basic
import Mathlib.Data.List.Nodup

/-! # Ordered maps

Finite maps whose entries are kept in strictly increasing key order, with the
operations of an ordered associative container: lookup, insertion, and erasure
from the front. The order of the entries is a field of the map, so two maps
with the same lookups are equal.
-/

namespace VeyraCam

/-- A finite map, as its list of entries in strictly increasing key order. -/
structure OrderedMap (κ ν : Type*) [LT κ] where
  entries : List (κ × ν)
  sorted : entries.Pairwise (·.1 < ·.1)

namespace OrderedMap

variable {κ ν : Type*} [LT κ]

@[ext] theorem ext {m m' : OrderedMap κ ν} (h : m.entries = m'.entries) : m = m' := by
  cases m; cases m'; congr

instance [DecidableEq κ] [DecidableEq ν] : DecidableEq (OrderedMap κ ν) := fun m m' =>
  decidable_of_iff (m.entries = m'.entries) ⟨ext, congrArg entries⟩

def empty : OrderedMap κ ν := ⟨[], .nil⟩

instance : EmptyCollection (OrderedMap κ ν) := ⟨empty⟩
instance : Inhabited (OrderedMap κ ν) := ⟨empty⟩

def size (m : OrderedMap κ ν) : ℕ := m.entries.length

def keys (m : OrderedMap κ ν) : List κ := m.entries.map (·.1)

def first? (m : OrderedMap κ ν) : Option (κ × ν) := m.entries.head?

def eraseFirst (m : OrderedMap κ ν) : OrderedMap κ ν :=
  ⟨m.entries.tail, m.sorted.sublist (List.tail_sublist _)⟩

/-- Erase from the front every entry whose key is at most the given one. -/
def eraseUpTo [LE κ] [DecidableLE κ] (m : OrderedMap κ ν) (k : κ) : OrderedMap κ ν :=
  ⟨m.entries.dropWhile (·.1 ≤ k), m.sorted.sublist (List.dropWhile_sublist _)⟩

@[simp] theorem entries_empty : (∅ : OrderedMap κ ν).entries = [] := rfl

@[simp] theorem size_empty : (∅ : OrderedMap κ ν).size = 0 := rfl

@[simp] theorem size_eraseFirst (m : OrderedMap κ ν) : m.eraseFirst.size = m.size - 1 :=
  List.length_tail ..

@[simp] theorem length_keys (m : OrderedMap κ ν) : m.keys.length = m.size :=
  List.length_map ..

theorem exists_first?_of_size_pos {m : OrderedMap κ ν} (h : 0 < m.size) :
    ∃ k v, m.first? = some (k, v) := by
  obtain ⟨⟨k, v⟩, entries, heq⟩ := List.exists_cons_of_length_pos h
  exact ⟨k, v, by rw [first?, heq, List.head?_cons]⟩

/-- Put an entry in its place in a list of entries, replacing the entry with its key. -/
def insertEntry [DecidableEq κ] [DecidableLT κ] (k : κ) (v : ν) : List (κ × ν) → List (κ × ν)
  | [] => [(k, v)]
  | e :: l =>
    if k < e.1 then (k, v) :: e :: l
    else if k = e.1 then (k, v) :: l
    else e :: insertEntry k v l

theorem mem_insertEntry [DecidableEq κ] [DecidableLT κ] {k : κ} {v : ν} {e : κ × ν}
    {l : List (κ × ν)} (h : e ∈ insertEntry k v l) : e = (k, v) ∨ e ∈ l := by
  induction l with
  | nil => simpa [insertEntry] using h
  | cons a l ih =>
    unfold insertEntry at h
    split_ifs at h <;> simp only [List.mem_cons] at h ⊢ <;> tauto

section Lookup

variable [DecidableEq κ]

def find? (m : OrderedMap κ ν) (k : κ) : Option ν :=
  (m.entries.find? (·.1 = k)).map (·.2)

@[simp] theorem find?_empty (k : κ) : (∅ : OrderedMap κ ν).find? k = none := rfl

theorem mem_entries_of_find? {m : OrderedMap κ ν} {k : κ} {v : ν} (h : m.find? k = some v) :
    (k, v) ∈ m.entries := by
  obtain ⟨⟨k', v'⟩, he, rfl⟩ := Option.map_eq_some_iff.mp h
  have hk : k' = k := by simpa using List.find?_some he
  subst hk
  exact List.mem_of_find?_eq_some he

theorem find?_eq_none_iff {m : OrderedMap κ ν} {k : κ} :
    m.find? k = none ↔ ∀ v, (k, v) ∉ m.entries := by
  simp only [find?, Option.map_eq_none_iff, List.find?_eq_none, decide_eq_true_eq]
  constructor
  · intro h v hv; exact h _ hv rfl
  · rintro h ⟨k', v'⟩ hm rfl; exact h _ hm

end Lookup

theorem mem_dropWhile_le [LE κ] [Std.IsLinearOrder κ] [Std.LawfulOrderLT κ] [DecidableLE κ]
    {l : List (κ × ν)} (hl : l.Pairwise (·.1 < ·.1)) {k : κ} {e : κ × ν} :
    e ∈ l.dropWhile (·.1 ≤ k) ↔ e ∈ l ∧ ¬ e.1 ≤ k := by
  induction l with
  | nil => simp
  | cons a l ih =>
    rw [List.pairwise_cons] at hl
    by_cases ha : a.1 ≤ k
    · rw [List.dropWhile_cons_of_pos (by simpa using ha), ih hl.2, List.mem_cons]
      constructor
      · rintro ⟨h, hk⟩; exact ⟨.inr h, hk⟩
      · rintro ⟨rfl | h, hk⟩
        · exact absurd ha hk
        · exact ⟨h, hk⟩
    · rw [List.dropWhile_cons_of_neg (by simpa using ha), List.mem_cons]
      refine ⟨fun h => ⟨h, ?_⟩, And.left⟩
      rcases h with rfl | h
      · exact ha
      · exact fun hk => ha (Std.le_trans (Std.le_of_lt (hl.1 _ h)) hk)

section Order

variable [LE κ] [Std.LawfulOrderLT κ]

theorem nodup_keys (m : OrderedMap κ ν) : m.keys.Nodup := by
  have h : m.keys.Pairwise (· < ·) := List.pairwise_map.mpr m.sorted
  exact h.imp Std.ne_of_lt

theorem nodup_entries (m : OrderedMap κ ν) : m.entries.Nodup :=
  m.nodup_keys.of_map _

variable [DecidableEq κ]

theorem size_eq_card (m : OrderedMap κ ν) : m.size = m.keys.toFinset.card := by
  rw [List.toFinset_card_of_nodup m.nodup_keys, length_keys]

theorem find?_eq_some_iff {m : OrderedMap κ ν} {k : κ} {v : ν} :
    m.find? k = some v ↔ (k, v) ∈ m.entries := by
  refine ⟨mem_entries_of_find?, fun h => ?_⟩
  cases hf : m.find? k with
  | none => exact absurd h (find?_eq_none_iff.mp hf v)
  | some w =>
    have hi := List.inj_on_of_nodup_map m.nodup_keys (mem_entries_of_find? hf) h rfl
    simp only [Prod.mk.injEq, true_and] at hi
    rw [hi]

theorem mem_keys_iff {m : OrderedMap κ ν} {k : κ} : k ∈ m.keys ↔ (m.find? k).isSome := by
  rw [Option.isSome_iff_exists]
  simp only [find?_eq_some_iff, keys, List.mem_map, Prod.exists, exists_and_right,
    exists_eq_right]

theorem size_le_of_subset {m m' : OrderedMap κ ν} (h : m.keys ⊆ m'.keys) : m.size ≤ m'.size := by
  rw [size_eq_card, size_eq_card]
  exact Finset.card_le_card fun k hk => List.mem_toFinset.mpr (h (List.mem_toFinset.mp hk))

theorem image_keys {m : OrderedMap κ ν} {f : κ → ℕ} (hf : Function.Injective f) :
    (m.keys.toFinset.image f).card = m.size := by
  rw [Finset.card_image_of_injective _ hf, ← size_eq_card]

theorem size_le_of_lt {m : OrderedMap κ ν} {f : κ → ℕ} (hf : Function.Injective f) {n : ℕ}
    (hk : ∀ k ∈ m.keys, f k < n) : m.size ≤ n := by
  rw [← image_keys hf, ← Finset.card_range n]
  refine Finset.card_le_card fun i hi => ?_
  obtain ⟨k, hk', rfl⟩ := Finset.mem_image.mp hi
  exact Finset.mem_range.mpr (hk k (List.mem_toFinset.mp hk'))

theorem size_eq_iff {m : OrderedMap κ ν} {f : κ → ℕ} (hf : Function.Injective f) {n : ℕ}
    (hk : ∀ k ∈ m.keys, f k < n) : m.size = n ↔ ∀ i < n, ∃ k ∈ m.keys, f k = i := by
  have hsub : m.keys.toFinset.image f ⊆ Finset.range n := fun i hi => by
    obtain ⟨k, hk', rfl⟩ := Finset.mem_image.mp hi
    exact Finset.mem_range.mpr (hk k (List.mem_toFinset.mp hk'))
  rw [← image_keys hf]
  constructor
  · intro hn i hi
    have he := Finset.eq_of_subset_of_card_le hsub (by rw [Finset.card_range, hn])
    obtain ⟨k, hk', rfl⟩ := Finset.mem_image.mp (he ▸ Finset.mem_range.mpr hi)
    exact ⟨k, List.mem_toFinset.mp hk', rfl⟩
  · intro h
    have he : m.keys.toFinset.image f = Finset.range n := hsub.antisymm fun i hi => by
      obtain ⟨k, hk', rfl⟩ := h i (Finset.mem_range.mp hi)
      exact Finset.mem_image_of_mem _ (List.mem_toFinset.mpr hk')
    rw [he, Finset.card_range]

theorem lt_of_size_eq {m : OrderedMap κ ν} {f : κ → ℕ} (hf : Function.Injective f) {n : ℕ}
    (hn : m.size = n) (h : ∀ i < n, ∃ k ∈ m.keys, f k = i) : ∀ k ∈ m.keys, f k < n := by
  have hsub : Finset.range n ⊆ m.keys.toFinset.image f := fun i hi => by
    obtain ⟨k, hk, rfl⟩ := h i (Finset.mem_range.mp hi)
    exact Finset.mem_image_of_mem _ (List.mem_toFinset.mpr hk)
  have he : Finset.range n = m.keys.toFinset.image f :=
    Finset.eq_of_subset_of_card_le hsub (by rw [image_keys hf, Finset.card_range, hn])
  intro k hk
  rw [← Finset.mem_range, he]
  exact Finset.mem_image_of_mem _ (List.mem_toFinset.mpr hk)

theorem size_le_one {m : OrderedMap κ ν} {k : κ} (h : ∀ j ∈ m.keys, j = k) : m.size ≤ 1 := by
  rw [size_eq_card, ← Finset.card_singleton k]
  exact Finset.card_le_card fun j hj =>
    Finset.mem_singleton.mpr (h j (List.mem_toFinset.mp hj))

theorem find?_eraseFirst {m : OrderedMap κ ν} {k : κ} {v : ν}
    (h : m.eraseFirst.find? k = some v) : m.find? k = some v :=
  find?_eq_some_iff.mpr (List.mem_of_mem_tail (find?_eq_some_iff.mp h))

theorem first?_eq_some_iff {m : OrderedMap κ ν} {k : κ} {v : ν} :
    m.first? = some (k, v) ↔ m.find? k = some v ∧ m.eraseFirst.find? k = none := by
  have hnodup := m.nodup_keys
  rw [find?_eq_some_iff, find?_eq_none_iff]
  unfold keys at hnodup
  unfold first? eraseFirst
  dsimp only
  cases he : m.entries with
  | nil => simp
  | cons a l =>
    rw [he, List.map_cons, List.nodup_cons] at hnodup
    constructor
    · rintro ⟨rfl⟩
      exact ⟨List.mem_cons_self, fun w hw => hnodup.1 (List.mem_map.mpr ⟨_, hw, rfl⟩)⟩
    · rintro ⟨hmem, hrest⟩
      rw [List.head?_cons, (List.mem_cons.mp hmem).resolve_right (hrest v)]

theorem find?_eraseFirst_of_lt [Std.IsLinearOrder κ] {m : OrderedMap κ ν} {j k : κ}
    (hj : j ∈ m.keys) (hlt : j < k) : m.eraseFirst.find? k = m.find? k := by
  obtain ⟨w, hw⟩ := Option.isSome_iff_exists.mp (mem_keys_iff.mp hj)
  cases hk : m.find? k with
  | none =>
    cases he : m.eraseFirst.find? k with
    | none => rfl
    | some v => rw [find?_eraseFirst he] at hk; cases hk
  | some v =>
    cases he : m.eraseFirst.find? k with
    | some v' => rw [← hk, find?_eraseFirst he]
    | none =>
      have hfirst := first?_eq_some_iff.mpr ⟨hk, he⟩
      obtain ⟨l, hl⟩ := List.head?_eq_some_iff.mp hfirst
      have hmem := mem_entries_of_find? hw
      have hsorted := m.sorted
      rw [hl] at hmem hsorted
      rcases List.mem_cons.mp hmem with heq | hmem
      · rw [(Prod.mk.inj heq).1] at hlt
        exact absurd hlt Std.lt_irrefl
      · have hkj := (List.pairwise_cons.mp hsorted).1 _ hmem
        exact absurd (Std.lt_trans hlt hkj) Std.lt_irrefl

variable [Std.IsLinearOrder κ]

theorem eq_of_find? {m m' : OrderedMap κ ν} (h : ∀ k, m.find? k = m'.find? k) : m = m' := by
  have hm : ∀ e, e ∈ m.entries ↔ e ∈ m'.entries := fun ⟨k, v⟩ => by
    rw [← find?_eq_some_iff, ← find?_eq_some_iff, h]
  have hp := (List.perm_ext_iff_of_nodup m.nodup_entries m'.nodup_entries).mpr hm
  refine ext (hp.eq_of_pairwise (fun a b _ _ hab hba => ?_) m.sorted m'.sorted)
  exact absurd (Std.lt_trans hab hba) Std.lt_irrefl

theorem find?_eraseUpTo [DecidableLE κ] (m : OrderedMap κ ν) (k j : κ) :
    (m.eraseUpTo k).find? j = if j ≤ k then none else m.find? j := by
  split_ifs with h
  · refine find?_eq_none_iff.mpr fun v hv => ?_
    exact ((mem_dropWhile_le m.sorted).mp hv).2 h
  · ext v
    simp only [find?_eq_some_iff]
    exact (mem_dropWhile_le m.sorted).trans (and_iff_left h)

theorem eraseUpTo_of_find? [DecidableLE κ] {m : OrderedMap κ ν} {k : κ}
    (h : ∀ j, j ≤ k → m.find? j = none) : m.eraseUpTo k = m := by
  refine eq_of_find? fun j => ?_
  rw [find?_eraseUpTo]
  split_ifs with hj
  · exact (h j hj).symm
  · rfl

/-- Erasing the first entry erases the one with the least key, where there is one. -/
theorem eraseFirst_eq_eraseUpTo [DecidableLE κ] {m : OrderedMap κ ν} {k : κ}
    (hk : ∀ j, k ≤ j) (h : (m.find? k).isSome) : m.eraseFirst = m.eraseUpTo k := by
  refine ext ?_
  obtain ⟨v, hv⟩ := Option.isSome_iff_exists.mp h
  have hmem := mem_entries_of_find? hv
  have hsorted := m.sorted
  change m.entries.tail = m.entries.dropWhile (·.1 ≤ k)
  cases he : m.entries with
  | nil => rw [he] at hmem; cases hmem
  | cons e l =>
    rw [he] at hmem hsorted
    have hfirst : e.1 = k := by
      rcases List.mem_cons.mp hmem with rfl | hl
      · rfl
      · have hlt := (List.pairwise_cons.mp hsorted).1 _ hl
        exact absurd (Std.lt_of_lt_of_le hlt (hk e.1)) Std.lt_irrefl
    have hrest : l.dropWhile (·.1 ≤ k) = l := by
      cases l with
      | nil => rfl
      | cons e' l =>
        have hlt := (List.pairwise_cons.mp hsorted).1 e' List.mem_cons_self
        rw [hfirst] at hlt
        rw [List.dropWhile_cons_of_neg]
        simpa using Std.not_le.mpr hlt
    rw [List.tail_cons, List.dropWhile_cons_of_pos (by simp [hfirst]), hrest]

variable [DecidableLT κ]

theorem sorted_insertEntry (k : κ) (v : ν) {l : List (κ × ν)}
    (hl : l.Pairwise (·.1 < ·.1)) : (insertEntry k v l).Pairwise (·.1 < ·.1) := by
  induction l with
  | nil => simp [insertEntry]
  | cons a l ih =>
    rw [List.pairwise_cons] at hl
    unfold insertEntry
    split_ifs with h₁ h₂
    · refine List.pairwise_cons.mpr ⟨fun e he => ?_, List.pairwise_cons.mpr hl⟩
      rcases List.mem_cons.mp he with rfl | he
      · exact h₁
      · exact Std.lt_trans h₁ (hl.1 e he)
    · exact List.pairwise_cons.mpr ⟨fun e he => by subst h₂; exact hl.1 e he, hl.2⟩
    · refine List.pairwise_cons.mpr ⟨fun e he => ?_, ih hl.2⟩
      rcases mem_insertEntry he with rfl | he
      · exact Std.lt_of_le_of_ne (Std.not_lt.mp h₁) (Ne.symm h₂)
      · exact hl.1 e he

def insert (m : OrderedMap κ ν) (k : κ) (v : ν) : OrderedMap κ ν :=
  ⟨insertEntry k v m.entries, sorted_insertEntry k v m.sorted⟩

@[simp] theorem find?_insert_self (m : OrderedMap κ ν) (k : κ) (v : ν) :
    (m.insert k v).find? k = some v := by
  refine find?_eq_some_iff.mpr ?_
  change (k, v) ∈ insertEntry k v m.entries
  induction m.entries with
  | nil => simp [insertEntry]
  | cons a l ih => unfold insertEntry; split_ifs <;> simp [ih]

theorem find?_insert_of_ne (m : OrderedMap κ ν) {k j : κ} (v : ν) (h : j ≠ k) :
    (m.insert k v).find? j = m.find? j := by
  ext w
  simp only [find?_eq_some_iff]
  change (j, w) ∈ insertEntry k v m.entries ↔ _
  induction m.entries with
  | nil => simp [insertEntry, h]
  | cons a l ih =>
    unfold insertEntry
    split_ifs with h₁ h₂
    · simp [h]
    · subst h₂
      have hne : (j, w) ≠ a := fun he => h (congrArg Prod.fst he)
      simp [h, hne]
    · simp [ih]

theorem find?_insert (m : OrderedMap κ ν) (k j : κ) (v : ν) :
    (m.insert k v).find? j = if j = k then some v else m.find? j := by
  split_ifs with h
  · subst h; exact m.find?_insert_self j v
  · exact m.find?_insert_of_ne v h

theorem insert_of_find? {m : OrderedMap κ ν} {k : κ} {v : ν} (h : m.find? k = some v) :
    m.insert k v = m := by
  refine eq_of_find? fun j => ?_
  rw [find?_insert]
  split_ifs with hj
  · rw [hj, h]
  · rfl

theorem first?_insert_of_none {m : OrderedMap κ ν} {k j : κ} {w : ν} (hk : m.find? k = none)
    (hj : m.first? = some (j, w)) (v : ν) :
    (m.insert k v).first? = some (if k < j then (k, v) else (j, w)) := by
  change (insertEntry k v m.entries).head? = _
  have hne : k ≠ j := by
    rintro rfl
    rw [(first?_eq_some_iff.mp hj).1] at hk
    cases hk
  unfold first? at hj
  cases he : m.entries with
  | nil => rw [he] at hj; cases hj
  | cons e l =>
    rw [he] at hj
    obtain rfl := Option.some.inj hj
    unfold insertEntry
    split_ifs with h
    · rfl
    · rfl

theorem mem_keys_insert {m : OrderedMap κ ν} {k j : κ} {v : ν} :
    j ∈ (m.insert k v).keys ↔ j = k ∨ j ∈ m.keys := by
  rw [mem_keys_iff, mem_keys_iff, find?_insert]
  split_ifs with h <;> simp [h]

theorem size_insert_of_none {m : OrderedMap κ ν} {k : κ} (h : m.find? k = none) (v : ν) :
    (m.insert k v).size = m.size + 1 := by
  have hk : k ∉ m.keys.toFinset := by simp [mem_keys_iff, h]
  have he : (m.insert k v).keys.toFinset = Insert.insert k m.keys.toFinset := by
    ext j; simp [mem_keys_insert]
  rw [size_eq_card, he, Finset.card_insert_of_notMem hk, size_eq_card]

theorem size_insert_of_isSome {m : OrderedMap κ ν} {k : κ} (h : (m.find? k).isSome) (v : ν) :
    (m.insert k v).size = m.size := by
  have he : (m.insert k v).keys.toFinset = m.keys.toFinset := by
    ext j
    simp only [List.mem_toFinset, mem_keys_insert, or_iff_right_iff_imp]
    rintro rfl
    exact mem_keys_iff.mpr h
  rw [size_eq_card, he, size_eq_card]

theorem size_insert_le (m : OrderedMap κ ν) (k : κ) (v : ν) : (m.insert k v).size ≤ m.size + 1 := by
  cases h : m.find? k with
  | none => exact (size_insert_of_none h v).le
  | some w => exact (size_insert_of_isSome (by simp [h]) v).trans_le (Nat.le_succ _)

end Order

end OrderedMap

end VeyraCam
