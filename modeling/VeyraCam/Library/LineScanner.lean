import VeyraCam.Library.Machine

/-! # Lines of a stream

A scanner that reads a stream element by element, gives out each line when its
separator comes, unless it is empty, and gives up on a line that becomes longer
than allowed. It finds the segments between separators, however the stream is cut,
and of a stream of lines that fit it gives out the lines.
-/

namespace VeyraCam.LineScanner

variable {α : Type*} {sep : α} {cap : ℕ}

/-- What is to be given out of the segments of a stream, of which the last one does not end with a
separator: those up to the first that is too long, without the empty ones. -/
def linesOf (cap : ℕ) (segs : List (List α)) : List (List α) :=
  (segs.dropLast.takeWhile (·.length ≤ cap)).filter (· ≠ [])

theorem linesOf_cons_of_le {seg : List α} {segs : List (List α)} (hsegs : segs ≠ [])
    (h : seg.length ≤ cap) :
    linesOf cap (seg :: segs) = (if seg = [] then [] else [seg]) ++ linesOf cap segs := by
  rw [linesOf, List.dropLast_cons_of_ne_nil hsegs, List.takeWhile_cons_of_pos (by simpa using h),
    List.filter_cons]
  split_ifs with hne hnil hnil
  · simp [hnil] at hne
  · rfl
  · rfl
  · simp [hnil] at hne

theorem linesOf_cons_of_lt {seg : List α} (segs : List (List α)) (h : cap < seg.length) :
    linesOf cap (seg :: segs) = [] := by
  rw [linesOf]
  cases segs with
  | nil => rfl
  | cons seg' segs =>
    rw [List.dropLast_cons_of_ne_nil (List.cons_ne_nil _ _),
      List.takeWhile_cons_of_neg (by simpa using h)]
    rfl

variable [DecidableEq α] (sep cap)

/-- Read one element, after those of the unfinished line; `none` once it has given up. -/
def scan : Option (List α) → α → Option (List α) × List (List α)
  | none, _ => (none, [])
  | some line, c =>
    if c = sep then (some [], if line = [] then [] else [line])
    else if cap ≤ line.length then (none, [])
    else (some (line ++ [c]), [])

def lines (stream : List α) : List (List α) := linesOf cap (stream.splitOnP (· = sep))

def Overlong (stream : List α) : Prop := ∃ seg ∈ stream.splitOnP (· = sep), cap < seg.length

variable {sep cap} {line stream : List α}

@[simp] theorem exec_scan_none (stream : List α) :
    Machine.exec (scan sep cap) none stream = (none, []) := by
  induction stream with
  | nil => rfl
  | cons c stream ih => rw [Machine.exec_cons, scan, ih, List.append_nil]

theorem scan_sep (line : List α) :
    scan sep cap (some line) sep = (some [], if line = [] then [] else [line]) := if_pos rfl

theorem scan_of_le {c : α} (hc : c ≠ sep) (h : cap ≤ line.length) :
    scan sep cap (some line) c = (none, []) := by
  rw [scan, if_neg hc, if_pos h]

theorem scan_of_lt {c : α} (hc : c ≠ sep) (h : line.length < cap) :
    scan sep cap (some line) c = (some (line ++ [c]), []) := by
  rw [scan, if_neg hc, if_neg (Nat.not_le.mpr h)]

theorem exec_scan_of_notMem (hsep : sep ∉ stream) (hcap : line.length + stream.length ≤ cap) :
    Machine.exec (scan sep cap) (some line) stream = (some (line ++ stream), []) := by
  induction stream generalizing line with
  | nil => rw [Machine.exec_nil, List.append_nil]
  | cons c stream ih =>
    rw [List.mem_cons, not_or] at hsep
    rw [List.length_cons] at hcap
    have hlength : (line ++ [c]).length + stream.length ≤ cap := by
      simp only [List.length_append, List.length_singleton]
      omega
    rw [Machine.exec_cons, scan_of_lt (Ne.symm hsep.1) (by omega), ih hsep.2 hlength]
    simp

/-- The scanner, in the middle of a line, finds the segments of what is to come, the first of them
behind what it has read of it. -/
theorem exec_scan (line : List α) (hline : line.length ≤ cap) {seg : List α} {segs : List (List α)}
    (hsegs : stream.splitOnP (· = sep) = seg :: segs) :
    (Machine.exec (scan sep cap) (some line) stream).2 = linesOf cap ((line ++ seg) :: segs) ∧
      ((Machine.exec (scan sep cap) (some line) stream).1 = none ↔
        ∃ s ∈ (line ++ seg) :: segs, cap < s.length) := by
  induction stream generalizing line seg segs with
  | nil =>
    rw [List.splitOnP_nil] at hsegs
    obtain ⟨rfl, rfl⟩ := List.cons.inj hsegs
    rw [List.append_nil]
    refine ⟨rfl, iff_of_false (by simp) ?_⟩
    simpa using hline
  | cons c stream ih =>
    obtain ⟨seg', segs', hstream⟩ :=
      List.exists_cons_of_ne_nil (List.splitOnP_ne_nil (· = sep) stream)
    rw [List.splitOnP_cons_eq_if_modifyHead, hstream] at hsegs
    rw [Machine.exec_cons]
    by_cases hc : c = sep
    · subst hc
      rw [if_pos (by simp)] at hsegs
      obtain ⟨rfl, rfl⟩ := List.cons.inj hsegs
      obtain ⟨hlines, hnone⟩ := ih [] (Nat.zero_le _) hstream
      rw [List.nil_append] at hlines hnone
      rw [scan_sep, List.append_nil, linesOf_cons_of_le (List.cons_ne_nil _ _) hline, hlines, hnone]
      refine ⟨rfl, ?_⟩
      simp only [List.mem_cons (b := line), exists_eq_or_imp, Nat.not_lt.mpr hline, false_or]
    · rw [if_neg (by simpa using hc), List.modifyHead_cons] at hsegs
      obtain ⟨rfl, rfl⟩ := List.cons.inj hsegs
      rcases Nat.lt_or_ge line.length cap with hlt | hge
      · have h := ih (line ++ [c]) (by simpa [Nat.succ_le_iff] using hlt) hstream
        rw [List.append_assoc, List.singleton_append] at h
        rw [scan_of_lt hc hlt]
        exact h
      · have hlong : cap < (line ++ c :: seg').length := by
          simp only [List.length_append, List.length_cons]
          omega
        rw [scan_of_le hc hge, exec_scan_none, linesOf_cons_of_lt _ hlong]
        exact ⟨rfl, iff_of_true rfl ⟨_, List.mem_cons_self, hlong⟩⟩

theorem exec_scan_nil (sep : α) (cap : ℕ) (stream : List α) :
    (Machine.exec (scan sep cap) (some []) stream).2 = lines sep cap stream ∧
      ((Machine.exec (scan sep cap) (some []) stream).1 = none ↔ Overlong sep cap stream) := by
  obtain ⟨seg, segs, hsegs⟩ := List.exists_cons_of_ne_nil (List.splitOnP_ne_nil (· = sep) stream)
  have h := exec_scan [] (Nat.zero_le cap) hsegs
  rwa [List.nil_append, ← hsegs] at h

/-! ## Streams of lines -/

def unlines (sep : α) (ls : List (List α)) : List α := ls.flatMap (· ++ [sep])

omit [DecidableEq α]

@[simp] theorem unlines_nil (sep : α) : unlines sep [] = [] := rfl

@[simp] theorem unlines_cons (sep : α) (l : List α) (ls : List (List α)) :
    unlines sep (l :: ls) = l ++ sep :: unlines sep ls := by
  simp [unlines]

@[simp] theorem unlines_append (sep : α) (ls ls' : List (List α)) :
    unlines sep (ls ++ ls') = unlines sep ls ++ unlines sep ls' := List.flatMap_append

theorem mem_unlines {c : α} {ls : List (List α)} (h : c ∈ unlines sep ls) :
    c = sep ∨ ∃ l ∈ ls, c ∈ l := by
  obtain ⟨l, hl, hc⟩ := List.mem_flatMap.mp h
  rcases List.mem_append.mp hc with hc | hc
  · exact .inr ⟨l, hl, hc⟩
  · exact .inl (List.mem_singleton.mp hc)

/-- The beginning of a stream of lines, up to one without the separator, is in the first line. -/
theorem cases_of_append_eq_unlines {c : α} {rest : List α} {ls : List (List α)} (hline : sep ∉ line)
    (hls : ∀ l ∈ ls, sep ∉ l) (h : line ++ c :: rest = unlines sep ls) :
    ∃ l ls', ls = l :: ls' ∧
      (c = sep ∧ line = l ∧ rest = unlines sep ls' ∨ c ≠ sep ∧ line ++ [c] <+: l) := by
  cases ls with
  | nil => simp at h
  | cons l ls =>
    have hl := (List.forall_mem_cons.mp hls).1
    rw [unlines_cons] at h
    refine ⟨l, ls, rfl, ?_⟩
    rcases List.append_eq_append_iff.mp h with ⟨a, rfl, ha⟩ | ⟨a, rfl, ha⟩
    · cases a with
      | nil =>
        obtain ⟨rfl, rfl⟩ := List.cons.inj ha
        exact .inl ⟨rfl, (List.append_nil line).symm, rfl⟩
      | cons d a =>
        obtain ⟨rfl, -⟩ := List.cons.inj ha
        refine .inr ⟨fun hc => hl (hc ▸ by simp), ⟨a, by simp⟩⟩
    · cases a with
      | nil =>
        obtain ⟨rfl, rfl⟩ := List.cons.inj ha
        exact .inl ⟨rfl, List.append_nil l, rfl⟩
      | cons d a =>
        obtain ⟨rfl, -⟩ := List.cons.inj ha
        exact absurd (by simp) hline

variable [DecidableEq α]

/-- A part of a stream of lines that fit, from the middle of one on: the scanner gives out the lines
that end in it and keeps the beginning of the next. -/
theorem exec_scan_of_unlines {chunk rest : List α} {ls : List (List α)} (hline : sep ∉ line)
    (hls : ∀ l ∈ ls, l ≠ [] ∧ sep ∉ l ∧ l.length ≤ cap)
    (h : line ++ (chunk ++ rest) = unlines sep ls) :
    ∃ line' out ls', Machine.exec (scan sep cap) (some line) chunk = (some line', out) ∧
      ls = out ++ ls' ∧ line' ++ rest = unlines sep ls' ∧ sep ∉ line' := by
  induction chunk generalizing line ls with
  | nil => exact ⟨line, [], ls, rfl, rfl, h, hline⟩
  | cons c chunk ih =>
    obtain ⟨l, ls, rfl, hcases⟩ :=
      cases_of_append_eq_unlines hline (fun l hl => (hls l hl).2.1) h
    obtain ⟨hl, hrest⟩ := List.forall_mem_cons.mp hls
    rw [Machine.exec_cons]
    rcases hcases with ⟨rfl, rfl, hrest'⟩ | ⟨hc, hpre⟩
    · obtain ⟨line', out, ls', hexec, rfl, hstream, hline'⟩ := ih List.not_mem_nil hrest hrest'
      refine ⟨line', line :: out, ls', ?_, rfl, hstream, hline'⟩
      rw [scan_sep, if_neg hl.1, hexec]
      rfl
    · have hlength := hpre.length_le
      rw [List.length_append, List.length_singleton] at hlength
      have hnot : sep ∉ line ++ [c] := by simpa using ⟨hline, Ne.symm hc⟩
      obtain ⟨line', out, ls', hexec, he, hstream, hline'⟩ :=
        ih hnot hls (by rw [List.append_assoc]; exact h)
      refine ⟨line', out, ls', ?_, he, hstream, hline'⟩
      rw [scan_of_lt hc (by omega), hexec]
      rfl

end VeyraCam.LineScanner
