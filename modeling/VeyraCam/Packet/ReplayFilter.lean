import VeyraCam.Library.Machine
import VeyraCam.Library.ReplayWindow

/-! # The replay filter

`ReplayFilter` keeps the highest accepted sequence number and a 64-bit bitmap
of the numbers up to it. It refines the anti-replay window of 64 numbers on the
set of sequence numbers accepted so far.
-/

namespace VeyraCam

/-- `ReplayFilter`, with the one word of `bitmap_` that is ever read. -/
structure ReplayFilter where
  highest : UInt32 := 0
  seenAny : Bool := false
  bitmap : UInt64 := 0
  deriving DecidableEq, Repr

namespace ReplayFilter

def window : ℕ := 64

def accept (f : ReplayFilter) (sequence : UInt32) : Bool × ReplayFilter :=
  if !f.seenAny then (true, { highest := sequence, seenAny := true, bitmap := 1 })
  else if f.highest < sequence then
    let advance := sequence - f.highest
    let bitmap := if 64 ≤ advance then 1 else f.bitmap <<< advance.toUInt64 ||| 1
    (true, { f with highest := sequence, bitmap })
  else
    let behind := f.highest - sequence
    if 64 ≤ behind then (false, f)
    else
      let bit := (1 : UInt64) <<< behind.toUInt64
      if f.bitmap &&& bit ≠ 0 then (false, f)
      else (true, { f with bitmap := f.bitmap ||| bit })

/-- The filter has accepted exactly the numbers of a set. -/
def Tracks (A : Set ℕ) (f : ReplayFilter) : Prop :=
  (f.seenAny = false ∧ A = ∅) ∨
    (f.seenAny = true ∧ ReplayWindow.Represents A f.highest.toNat f.bitmap.toBitVec)

theorem tracks_empty : Tracks ∅ {} := .inl ⟨rfl, rfl⟩

theorem Tracks.of_mem_iff {A B : Set ℕ} {f : ReplayFilter} (h : f.Tracks A)
    (hAB : ∀ n, n ∈ B ↔ n ∈ A) : f.Tracks B := Set.ext hAB ▸ h

theorem toBitVec_shiftLeft {b : UInt32} (h : b.toNat < 64) (x : UInt64) :
    (x <<< b.toUInt64).toBitVec = x.toBitVec <<< b.toNat := by
  simp [Nat.mod_eq_of_lt h]

theorem and_bit_eq_zero_iff {b : UInt32} (h : b.toNat < 64) (x : UInt64) :
    x &&& (1 : UInt64) <<< b.toUInt64 = 0 ↔ x.toBitVec.getLsbD b.toNat = false := by
  have hbit : (1 : UInt64).toBitVec <<< b.toNat = BitVec.twoPow 64 b.toNat := rfl
  rw [← UInt64.toBitVec_inj, UInt64.toBitVec_and, toBitVec_shiftLeft h, hbit, BitVec.and_twoPow]
  cases hx : x.toBitVec.getLsbD b.toNat with
  | false => simp
  | true =>
    have hne : BitVec.twoPow 64 b.toNat ≠ 0#64 := fun he => by
      have := congrArg (·.getLsbD b.toNat) he
      simp [h] at this
    simp [hne]

variable {A : Set ℕ} {f : ReplayFilter}

/-- What one call does to the set of accepted numbers. -/
def AcceptSpec (A : Set ℕ) (s : UInt32) (r : Bool × ReplayFilter) : Prop :=
  (r.1 = true ↔ ReplayWindow.Admissible window A s.toNat) ∧
    (r.1 = true → Tracks (insert s.toNat A) r.2)

theorem acceptSpec_of_lt (hs : f.seenAny = true)
    (hr : ReplayWindow.Represents A f.highest.toNat f.bitmap.toBitVec) {s : UInt32}
    (hlt : f.highest < s) : AcceptSpec A s (f.accept s) := by
  have hlt' := UInt32.lt_iff_toNat_lt.mp hlt
  have hsub := UInt32.toNat_sub_of_le s f.highest (UInt32.le_of_lt hlt)
  have hr' := hr.advance (by decide) hlt'
  simp only [ReplayFilter.accept, hs, Bool.not_true, Bool.false_eq_true, if_false, if_pos hlt]
  refine ⟨iff_of_true rfl (hr.admissible_of_lt hlt'), fun _ => .inr ⟨rfl, ?_⟩⟩
  split_ifs with hadv
  · have hge : 64 ≤ s.toNat - f.highest.toNat := by
      rw [← hsub]; exact UInt32.le_iff_toNat_le.mp hadv
    rwa [BitVec.shiftLeft_eq_zero hge, BitVec.zero_or] at hr'
  · have hadv' : (s - f.highest).toNat < 64 := by
      have := mt UInt32.le_iff_toNat_le.mpr hadv
      simpa using this
    rw [UInt64.toBitVec_or, toBitVec_shiftLeft hadv', hsub]
    exact hr'

theorem acceptSpec_of_le (hs : f.seenAny = true)
    (hr : ReplayWindow.Represents A f.highest.toNat f.bitmap.toBitVec) {s : UInt32}
    (hle : s ≤ f.highest) : AcceptSpec A s (f.accept s) := by
  have hle' := UInt32.le_iff_toNat_le.mp hle
  have hsub := UInt32.toNat_sub_of_le f.highest s hle
  have hadm := hr.admissible_iff hle'
  simp only [ReplayFilter.accept, hs, Bool.not_true, Bool.false_eq_true, if_false,
    if_neg (UInt32.not_lt.mpr hle)]
  split_ifs with hbeh hbit
  · have hge : 64 ≤ (f.highest - s).toNat := UInt32.le_iff_toNat_le.mp hbeh
    refine ⟨iff_of_false (by simp) fun ha => ?_, by simp⟩
    have := (hadm.mp ha).1
    omega
  all_goals
    have hbeh' : (f.highest - s).toNat < 64 := by
      have := mt UInt32.le_iff_toNat_le.mpr hbeh
      simpa using this
    rw [← hsub] at hadm
  · refine ⟨iff_of_false (by simp) fun ha => ?_, by simp⟩
    exact hbit ((and_bit_eq_zero_iff hbeh' _).mpr (hadm.mp ha).2)
  · have hz := (and_bit_eq_zero_iff hbeh' f.bitmap).mp (not_not.mp hbit)
    refine ⟨iff_of_true rfl (hadm.mpr ⟨hbeh', hz⟩), fun _ => .inr ⟨rfl, ?_⟩⟩
    have := hr.behind hle' (by rwa [← hsub])
    rw [UInt64.toBitVec_or, toBitVec_shiftLeft hbeh', hsub]
    exact this

/-- A sequence number is accepted exactly when it is admissible, and what is
accepted joins the set. -/
theorem Tracks.accept (h : Tracks A f) (s : UInt32) : AcceptSpec A s (f.accept s) := by
  rcases h with ⟨hs, rfl⟩ | ⟨hs, hr⟩
  · have he : f.accept s = (true, { highest := s, seenAny := true, bitmap := 1 }) := by
      simp [ReplayFilter.accept, hs]
    rw [he]
    refine ⟨iff_of_true rfl (ReplayWindow.admissible_empty _ _), fun _ => .inr ⟨rfl, ?_⟩⟩
    simpa using ReplayWindow.represents_singleton (w := 64) (by decide) s.toNat
  · rcases UInt32.lt_or_le f.highest s with hlt | hle
    · exact acceptSpec_of_lt hs hr hlt
    · exact acceptSpec_of_le hs hr hle

theorem accept_snd_of_refused {f : ReplayFilter} {s : UInt32} (h : (f.accept s).1 = false) :
    (f.accept s).2 = f := by
  unfold ReplayFilter.accept at h ⊢
  dsimp only at h ⊢
  split_ifs at h ⊢ <;> rfl

def receive (f : ReplayFilter) (sequence : UInt32) : ReplayFilter × List UInt32 :=
  ((f.accept sequence).2, if (f.accept sequence).1 then [sequence] else [])

def numbers (accepted : List UInt32) : Set ℕ := {n | ∃ a ∈ accepted, a.toNat = n}

theorem toNat_mem_numbers_iff {accepted : List UInt32} {s : UInt32} :
    s.toNat ∈ numbers accepted ↔ s ∈ accepted := by
  constructor
  · rintro ⟨a, ha, hs⟩
    rwa [← UInt32.toNat_inj.mp hs]
  · exact fun h => ⟨s, h, rfl⟩

theorem numbers_concat (accepted : List UInt32) (s : UInt32) :
    numbers (accepted ++ [s]) = insert s.toNat (numbers accepted) := by
  ext n
  simp [numbers, or_and_right, exists_or, or_comm, eq_comm]

theorem tracks_run (sequences : List UInt32) :
    let run := Machine.exec receive {} sequences
    run.1.Tracks (numbers run.2) ∧ run.2.Nodup := by
  apply Machine.history_invariant receive {} sequences
    (I := fun _ f accepted => f.Tracks (numbers accepted) ∧ accepted.Nodup)
  · exact ⟨by simpa [numbers] using tracks_empty, List.nodup_nil⟩
  · rintro pre s post - ⟨ht, hn⟩
    obtain ⟨hiff, hinsert⟩ := ht.accept s
    unfold receive
    dsimp only
    split_ifs with hs
    · rw [numbers_concat]
      refine ⟨hinsert hs, hn.append (List.nodup_singleton s) ?_⟩
      rintro a ha hmem
      rw [List.mem_singleton.mp hmem] at ha
      exact (hiff.mp hs).1 (toNat_mem_numbers_iff.mpr ha)
    · rw [accept_snd_of_refused (Bool.eq_false_of_not_eq_true hs), List.append_nil]
      exact ⟨ht, hn⟩

theorem numbers_eq_empty_iff {accepted : List UInt32} : numbers accepted = ∅ ↔ accepted = [] := by
  constructor
  · intro h
    refine List.eq_nil_iff_forall_not_mem.mpr fun a ha => ?_
    exact Set.eq_empty_iff_forall_notMem.mp h a.toNat (toNat_mem_numbers_iff.mpr ha)
  · rintro rfl
    simp [numbers]

/-- After any calls on a new filter, a number is accepted when none has been, or when it is new
and less than 64 below the highest; so none is accepted twice. -/
theorem accept_exact (sequences : List UInt32) (s : UInt32) :
    let run := Machine.exec receive {} sequences
    ((run.1.accept s).1 = true ↔ run.2 = [] ∨
      s ∉ run.2 ∧ ∃ h, IsGreatest (numbers run.2) h ∧ h < s.toNat + window) ∧
    run.2.Nodup ∧
    (s ∉ run.2 → ∀ h, IsGreatest (numbers run.2) h → h - s.toNat < window →
      (run.1.accept s).1 = true) := by
  intro run
  obtain ⟨ht, hn⟩ := tracks_run sequences
  have hiff := (ht.accept s).1
  rcases ht with ⟨-, hempty⟩ | ⟨-, hr⟩
  · have hnil : run.2 = [] := numbers_eq_empty_iff.mp hempty
    rw [hempty] at hiff
    have haccepted := hiff.mpr (ReplayWindow.admissible_empty _ _)
    exact ⟨iff_of_true haccepted (.inl hnil), hn, fun _ _ _ _ => haccepted⟩
  · have hgreatest := hr.isGreatest
    rw [ReplayWindow.admissible_iff_of_isGreatest hgreatest, toNat_mem_numbers_iff] at hiff
    refine ⟨hiff.trans ?_, hn, ?_⟩
    · constructor
      · exact fun ⟨hnew, hlt⟩ => .inr ⟨hnew, _, hgreatest, hlt⟩
      · rintro (hnil | ⟨hnew, h, hh, hlt⟩)
        · exact absurd hr.mem (numbers_eq_empty_iff.mpr hnil ▸ id)
        · exact ⟨hnew, hh.unique hgreatest ▸ hlt⟩
    · intro hnew h hh hlt
      rw [hh.unique hgreatest] at hlt
      refine hiff.mpr ⟨hnew, ?_⟩
      unfold window at hlt ⊢
      omega

end ReplayFilter

end VeyraCam
