import Mathlib.Data.List.TakeWhile
import VeyraCam.Library.LineScanner
import VeyraCam.Protocol.Bytes

/-! # Reading the control connection

`TcpControlClient::ReadLoop` collects what it receives, gives up when it has
collected too much, and then cuts off the lines. How the stream is cut into pieces
shows in two places: what follows a zero byte in a piece is lost with it, and a line
that is not too long may be when the next ones come with its end.
-/

namespace VeyraCam.TcpControlClient

open LineScanner

def kMaxLineLength : ℕ := 64 * 1024

/-- `sizeof(buffer) - 1`, the most that one call of `recv` returns. -/
def recvSize : ℕ := 4095

def newline : UInt8 := 10

/-- The bytes before the first zero byte, which is where a C string ends. -/
def cString (bytes : Bytes) : Bytes := bytes.takeWhile (· ≠ 0)

/-- The loop that cuts off lines, after the bytes of the first one that it has passed; with what
is left and the lines given to `callback_`. -/
def extractLines (line : Bytes) : Bytes → Bytes × List Bytes
  | [] => (line, [])
  | c :: accumulated =>
    if c = newline then
      let (rest, lines) := extractLines [] accumulated
      (rest, (if line = [] then [] else [line]) ++ lines)
    else extractLines (line ++ [c]) accumulated

/-- A pass of `TcpControlClient::ReadLoop` with the bytes received; `none` once the connection has
been dropped. -/
def receive : Option Bytes → Bytes → Option Bytes × List Bytes
  | none, _ => (none, [])
  | some accumulated, buffer =>
    if kMaxLineLength < (accumulated ++ cString buffer).length then (none, [])
    else
      let (rest, lines) := extractLines [] (accumulated ++ cString buffer)
      (some rest, lines)

def IsRead (chunk : Bytes) : Prop := chunk ≠ [] ∧ chunk.length ≤ recvSize

/-- After the bytes of the unfinished segment: no segment that ends has a zero byte, or is too long
together with its newline and what may be received with that; and a segment that gets too long has
no zero byte until then. -/
def Framable (seg : Bytes) : Bytes → Prop
  | [] => True
  | c :: stream =>
    if c = newline then
      0 ∉ seg ∧
        seg.length + 1 + min (recvSize - 1) (cString stream).length ≤ kMaxLineLength ∧
        Framable [] stream
    else if kMaxLineLength ≤ seg.length then 0 ∉ seg ∧ c ≠ 0
    else Framable (seg ++ [c]) stream

/-- The same lines, and the connection dropped in both or in none. -/
def Agrees (r r' : Option Bytes × List Bytes) : Prop := r.2 = r'.2 ∧ (r.1 = none ↔ r'.1 = none)

variable {seg line stream : Bytes} {c : UInt8} {chunks : List Bytes}

theorem recvSize_le : recvSize ≤ kMaxLineLength := by decide

theorem extractLines_append {l : Bytes} (h : newline ∉ l) (line accumulated : Bytes) :
    extractLines line (l ++ accumulated) = extractLines (line ++ l) accumulated := by
  induction l generalizing line with
  | nil => rw [List.nil_append, List.append_nil]
  | cons c l ih =>
    rw [List.mem_cons, not_or] at h
    rw [List.cons_append, extractLines, if_neg (Ne.symm h.1), ih h.2, List.append_assoc,
      List.singleton_append]

theorem extractLines_of_notMem {l : Bytes} (h : newline ∉ l) :
    extractLines [] l = (l, []) := by
  have happend := extractLines_append h [] []
  rwa [List.append_nil] at happend

/-- As long as little enough has been collected, the loop does what it is for. -/
theorem exec_scan_eq_extractLines {l : Bytes} (h : line.length + l.length ≤ kMaxLineLength) :
    Machine.exec (scan newline kMaxLineLength) (some line) l =
      (some (extractLines line l).1, (extractLines line l).2) := by
  induction l generalizing line with
  | nil => rfl
  | cons c l ih =>
    rw [List.length_cons] at h
    rw [Machine.exec_cons, extractLines]
    by_cases hc : c = newline
    · subst hc
      rw [scan_sep, ih (by simp; omega), if_pos rfl]
    · have hlength : (line ++ [c]).length + l.length ≤ kMaxLineLength := by
        simp only [List.length_append, List.length_singleton]
        omega
      rw [scan_of_lt hc (by omega), ih hlength, if_neg hc]
      rfl

theorem receive_of_lt {accumulated buffer : Bytes}
    (h : kMaxLineLength < (accumulated ++ cString buffer).length) :
    receive (some accumulated) buffer = (none, []) := if_pos h

theorem receive_of_le {accumulated buffer : Bytes} (hline : newline ∉ accumulated)
    (h : (accumulated ++ cString buffer).length ≤ kMaxLineLength) :
    receive (some accumulated) buffer =
      Machine.exec (scan newline kMaxLineLength) (some accumulated) (cString buffer) := by
  rw [List.length_append] at h
  rw [receive, List.length_append, if_neg (Nat.not_lt.mpr h), extractLines_append hline,
    exec_scan_eq_extractLines h]
  rfl

@[simp] theorem exec_receive_none (chunks : List Bytes) :
    Machine.exec receive none chunks = (none, []) := by
  induction chunks with
  | nil => rfl
  | cons chunk chunks ih => rw [Machine.exec_cons, receive, ih, List.append_nil]

/-- The beginning of a segment that may still be framed: no newline, no zero byte, not too long. -/
structure Plain (seg : Bytes) : Prop where
  newline_notMem : newline ∉ seg
  zero_notMem : 0 ∉ seg
  length_le : seg.length ≤ kMaxLineLength

theorem plain_nil : Plain [] := ⟨List.not_mem_nil, List.not_mem_nil, Nat.zero_le _⟩

theorem Plain.concat (h : Plain seg) (hc : c ≠ newline) (hc' : c ≠ 0)
    (hlength : seg.length < kMaxLineLength) : Plain (seg ++ [c]) where
  newline_notMem := by simpa using ⟨h.newline_notMem, Ne.symm hc⟩
  zero_notMem := by simpa using ⟨h.zero_notMem, Ne.symm hc'⟩
  length_le := by simpa [Nat.succ_le_iff] using hlength

theorem Framable.exec {l seg' : Bytes} {lines : List Bytes} (h : Framable seg (l ++ stream))
    (hseg : Plain seg) (hl : 0 ∉ l)
    (hexec : Machine.exec (scan newline kMaxLineLength) (some seg) l = (some seg', lines)) :
    Framable seg' stream ∧ Plain seg' := by
  induction l generalizing seg lines with
  | nil =>
    obtain ⟨rfl, -⟩ : seg = seg' ∧ [] = lines := by simpa using hexec
    exact ⟨h, hseg⟩
  | cons c l ih =>
    rw [List.mem_cons, not_or] at hl
    rw [List.cons_append, Framable] at h
    rw [Machine.exec_cons, Prod.mk.injEq] at hexec
    split_ifs at h with hc hlong
    · subst hc
      rw [scan_sep] at hexec
      exact ih h.2.2 plain_nil hl.2 (Prod.ext hexec.1 rfl)
    · rw [scan_of_le hc hlong, exec_scan_none] at hexec
      cases hexec.1
    · rw [scan_of_lt hc (not_le.mp hlong)] at hexec
      have hplain := hseg.concat hc (Ne.symm hl.1) (not_le.mp hlong)
      exact ih h hplain hl.2 (Prod.ext hexec.1 rfl)

theorem cString_of_notMem {l : Bytes} (h : 0 ∉ l) : cString l = l := by
  rw [cString, List.takeWhile_eq_self_iff]
  rintro c hc
  simpa using ne_of_mem_of_not_mem hc h

theorem exists_cString_append (bytes : Bytes) :
    ∃ lost, cString bytes ++ lost = bytes ∧ (lost = [] ∨ ∃ rest, lost = 0 :: rest) := by
  induction bytes with
  | nil => exact ⟨[], rfl, .inl rfl⟩
  | cons c bytes ih =>
    obtain ⟨lost, hlost, hcases⟩ := ih
    by_cases hc : c = 0
    · subst hc
      exact ⟨0 :: bytes, rfl, .inr ⟨bytes, rfl⟩⟩
    · refine ⟨lost, ?_, hcases⟩
      rw [cString, List.takeWhile_cons_of_pos (by simpa using hc), List.cons_append]
      exact congrArg (c :: ·) hlost

theorem zero_notMem_cString (bytes : Bytes) : 0 ∉ cString bytes := by
  intro h
  simpa using List.mem_takeWhile_imp h

theorem length_le_cString_append {l : Bytes} (h : 0 ∉ l) (l' : Bytes) :
    l.length ≤ (cString (l ++ l')).length := by
  have hl : ∀ c ∈ l, decide (c ≠ 0) = true := by
    rintro c hc
    simpa using ne_of_mem_of_not_mem hc h
  rw [cString, List.takeWhile_append_of_pos hl, List.length_append]
  exact Nat.le_add_right _ _

/-- A read with which too much has been collected is one in which a segment gets too long. -/
theorem Framable.exec_scan_of_lt {l : Bytes} (h : Framable seg (l ++ stream)) (hl : 0 ∉ l)
    (hsize : l.length ≤ recvSize) (hseg : seg.length ≤ kMaxLineLength)
    (hlong : kMaxLineLength < seg.length + l.length) :
    Machine.exec (scan newline kMaxLineLength) (some seg) l = (none, []) := by
  induction l generalizing seg with
  | nil => exact absurd hlong (Nat.not_lt.mpr hseg)
  | cons c l ih =>
    rw [List.mem_cons, not_or] at hl
    rw [List.length_cons] at hsize hlong
    rw [List.cons_append, Framable] at h
    rw [Machine.exec_cons]
    split_ifs at h with hc hfull
    · -- the newline leaves room for all that comes with it
      have hroom := length_le_cString_append hl.2 stream
      obtain ⟨-, hfits, -⟩ := h
      omega
    · rw [scan_of_le hc hfull, exec_scan_none]
      rfl
    · have hlength : (seg ++ [c]).length = seg.length + 1 := List.length_append
      rw [scan_of_lt hc (not_le.mp hfull), ih h hl.2 (by omega) (by omega) (by omega)]
      rfl

theorem Framable.of_zero_mem (h : Framable seg stream) (hzero : 0 ∈ seg)
    (hseg : seg.length ≤ kMaxLineLength) :
    newline ∉ stream ∧ seg.length + stream.length ≤ kMaxLineLength := by
  induction stream generalizing seg with
  | nil => exact ⟨List.not_mem_nil, hseg⟩
  | cons c stream ih =>
    rw [Framable] at h
    split_ifs at h with hc hlong
    · exact absurd hzero h.1
    · exact absurd hzero h.1
    · have hlength : (seg ++ [c]).length = seg.length + 1 := List.length_append
      obtain ⟨hstream, hle⟩ := ih h (List.mem_append_left _ hzero) (by omega)
      refine ⟨by simpa using ⟨Ne.symm hc, hstream⟩, ?_⟩
      rw [List.length_cons]
      omega

theorem Framable.of_zero_cons (h : Framable seg (0 :: stream)) :
    newline ∉ 0 :: stream ∧ seg.length + (0 :: stream).length ≤ kMaxLineLength := by
  have hzero : (0 : UInt8) ≠ newline := by decide
  rw [Framable, if_neg hzero] at h
  split_ifs at h with hlong
  · exact absurd rfl h.2
  · have hlength : (seg ++ [0]).length = seg.length + 1 := List.length_append
    obtain ⟨hstream, hle⟩ := h.of_zero_mem (by simp) (by omega)
    refine ⟨by simpa using ⟨Ne.symm hzero, hstream⟩, ?_⟩
    rw [List.length_cons]
    omega

theorem exec_receive_of_notMem {accumulated : Bytes} (hline : newline ∉ accumulated)
    (hchunks : newline ∉ chunks.flatten)
    (hlength : accumulated.length + chunks.flatten.length ≤ kMaxLineLength) :
    ∃ rest, Machine.exec receive (some accumulated) chunks = (some rest, []) := by
  induction chunks generalizing accumulated with
  | nil => exact ⟨accumulated, rfl⟩
  | cons chunk chunks ih =>
    rw [List.flatten_cons, List.mem_append, not_or] at hchunks
    rw [List.flatten_cons, List.length_append] at hlength
    have hpre : cString chunk <+: chunk := List.takeWhile_prefix _
    have hsize := hpre.length_le
    have hmem : newline ∉ accumulated ++ cString chunk := by
      rw [List.mem_append, not_or]
      exact ⟨hline, fun h => hchunks.1 (hpre.subset h)⟩
    have happend : (accumulated ++ cString chunk).length =
        accumulated.length + (cString chunk).length := List.length_append
    obtain ⟨rest, hrest⟩ := ih hmem hchunks.2 (by omega)
    refine ⟨rest, ?_⟩
    rw [Machine.exec_cons, receive, if_neg (by omega), extractLines_of_notMem hmem]
    dsimp only
    rw [hrest]
    rfl

theorem Agrees.cons {r r' : Option Bytes × List Bytes} (h : Agrees r r') (lines : List Bytes) :
    Agrees (r.1, lines ++ r.2) (r'.1, lines ++ r'.2) := by
  refine ⟨?_, h.2⟩
  dsimp only
  rw [h.1]

theorem Framable.agrees_of_zero_cons {lost : Bytes} (h : Framable seg (0 :: stream))
    (hseg : newline ∉ seg) (hpre : 0 :: lost ++ chunks.flatten <+: 0 :: stream) :
    Agrees (Machine.exec receive (some seg) chunks)
      (Machine.exec (scan newline kMaxLineLength) (some seg) (0 :: lost ++ chunks.flatten)) := by
  obtain ⟨hmem, hlength⟩ := h.of_zero_cons
  have hmem' : newline ∉ 0 :: lost ++ chunks.flatten := fun h => hmem (hpre.subset h)
  have hlength' := hpre.length_le
  have hchunks : newline ∉ chunks.flatten := fun h => hmem' (List.mem_append_right _ h)
  have hle : chunks.flatten.length ≤ (0 :: lost ++ chunks.flatten).length := by
    rw [List.length_append]
    exact Nat.le_add_left _ _
  obtain ⟨rest, hquiet⟩ := exec_receive_of_notMem hseg hchunks (by omega)
  rw [hquiet, exec_scan_of_notMem hmem' (by omega)]
  exact ⟨rfl, by simp⟩

theorem Framable.agrees (h : Framable seg stream) (hseg : Plain seg)
    (hchunks : ∀ chunk ∈ chunks, IsRead chunk) (hpre : chunks.flatten <+: stream) :
    Agrees (Machine.exec receive (some seg) chunks)
      (Machine.exec (scan newline kMaxLineLength) (some seg) chunks.flatten) := by
  induction chunks generalizing seg stream with
  | nil => exact ⟨rfl, .rfl⟩
  | cons chunk chunks ih =>
    obtain ⟨hchunk, hchunks⟩ := List.forall_mem_cons.mp hchunks
    obtain ⟨stream', rfl⟩ := hpre
    obtain ⟨lost, hlost, hcases⟩ := exists_cString_append chunk
    have hzero := zero_notMem_cString chunk
    have hsize : (cString chunk).length ≤ recvSize :=
      (List.takeWhile_prefix _).length_le.trans hchunk.2
    have hflatten : (chunk :: chunks).flatten = cString chunk ++ (lost ++ chunks.flatten) := by
      rw [List.flatten_cons, ← List.append_assoc, hlost]
    rw [hflatten, List.append_assoc] at h
    rw [hflatten, Machine.exec_append, Machine.exec_cons]
    rcases Nat.lt_or_ge kMaxLineLength (seg ++ cString chunk).length with hlt | hle
    · rw [receive_of_lt hlt, exec_receive_none]
      rw [List.length_append] at hlt
      rw [h.exec_scan_of_lt hzero hsize hseg.length_le hlt, exec_scan_none]
      exact ⟨rfl, .rfl⟩
    · rw [receive_of_le hseg.newline_notMem hle]
      rw [List.length_append] at hle
      have hexec := exec_scan_eq_extractLines hle
      obtain ⟨hrest, hplain⟩ := h.exec hseg hzero hexec
      rw [hexec]
      refine Agrees.cons ?_ _
      rcases hcases with rfl | ⟨rest, rfl⟩
      · rw [List.nil_append] at hrest ⊢
        exact ih hrest hplain hchunks (List.prefix_append _ _)
      · rw [List.append_assoc, List.cons_append] at hrest
        exact hrest.agrees_of_zero_cons hplain.newline_notMem ⟨stream', by simp⟩

def collected (seg : Bytes) : Bytes := seg.filter (· ≠ 0)

theorem collected_concat (seg : Bytes) (c : UInt8) :
    collected (seg ++ [c]) = collected seg ++ cString [c] := by
  rw [collected, List.filter_append]
  by_cases hc : c = 0
  · subst hc
    rfl
  · simp [collected, cString, hc]

theorem length_collected_le (seg : Bytes) : (collected seg).length ≤ seg.length :=
  List.length_filter_le ..

theorem collected_eq (h : 0 ∉ seg) : collected seg = seg := by
  rw [collected, List.filter_eq_self]
  rintro c hc
  simpa using ne_of_mem_of_not_mem hc h

theorem newline_notMem_collected (h : newline ∉ seg) : newline ∉ collected seg :=
  fun hmem => h (List.mem_of_mem_filter hmem)

theorem receive_singleton (hseg : newline ∉ seg) (hc : c ≠ newline)
    (hlength : (seg ++ [c]).length ≤ kMaxLineLength) :
    receive (some (collected seg)) [c] = (some (collected (seg ++ [c])), []) := by
  have hmem : newline ∉ collected (seg ++ [c]) := by
    apply newline_notMem_collected
    simpa using ⟨hseg, Ne.symm hc⟩
  rw [receive, ← collected_concat, extractLines_of_notMem hmem, if_neg]
  exact Nat.not_lt.mpr ((length_collected_le _).trans hlength)

theorem receive_newline (hseg : newline ∉ seg) (hlength : seg.length < kMaxLineLength) :
    receive (some seg) [newline] = (some [], if seg = [] then [] else [seg]) := by
  have hnewline : cString [newline] = [newline] := rfl
  have hle : (seg ++ cString [newline]).length ≤ kMaxLineLength := by
    rw [hnewline, List.length_append]
    exact hlength
  rw [receive_of_le hseg hle, hnewline, Machine.exec_cons, scan_sep]
  simp

theorem isRead_singleton (c : UInt8) : IsRead [c] :=
  ⟨List.cons_ne_nil _ _, show 1 ≤ recvSize by decide⟩

/-- However what is to come of a stream is cut, it is framed, once its beginning has come byte by
byte. -/
def Framed (seg stream : Bytes) : Prop :=
  ∀ chunks, (∀ chunk ∈ chunks, IsRead chunk) → chunks.flatten <+: stream →
    Agrees (Machine.exec receive (some (collected seg)) chunks)
      (Machine.exec (scan newline kMaxLineLength) (some seg) chunks.flatten)

theorem Framed.read {chunk : Bytes} (h : Framed seg stream) (hread : IsRead chunk)
    (hpre : chunk <+: stream) :
    Agrees (receive (some (collected seg)) chunk)
      (Machine.exec (scan newline kMaxLineLength) (some seg) chunk) := by
  have hflatten : [chunk].flatten = chunk := List.flatten_singleton
  have hframed := h [chunk] (List.forall_mem_singleton.mpr hread) (by rwa [hflatten])
  rw [hflatten, Machine.exec_cons, Machine.exec_nil, List.append_nil] at hframed
  exact hframed

theorem Framed.singleton (h : Framed seg (c :: stream)) :
    Agrees (receive (some (collected seg)) [c]) (scan newline kMaxLineLength (some seg) c) := by
  have hframed := h.read (isRead_singleton c) (List.prefix_append [c] stream)
  rw [Machine.exec_cons, Machine.exec_nil, List.append_nil] at hframed
  exact hframed

theorem Agrees.of_append {r r' : Option Bytes × List Bytes} {lines : List Bytes}
    (h : Agrees (r.1, lines ++ r.2) (r'.1, lines ++ r'.2)) : Agrees r r' :=
  ⟨List.append_cancel_left h.1, h.2⟩

theorem Framed.tail (h : Framed seg (c :: stream)) {seg' : Bytes} {lines : List Bytes}
    (hreceive : receive (some (collected seg)) [c] = (some (collected seg'), lines))
    (hscan : scan newline kMaxLineLength (some seg) c = (some seg', lines)) :
    Framed seg' stream := by
  rintro chunks hchunks hpre
  have hframed := h ([c] :: chunks) (List.forall_mem_cons.mpr ⟨isRead_singleton c, hchunks⟩)
    (List.cons_prefix_cons.mpr ⟨rfl, hpre⟩)
  rw [List.flatten_cons, List.singleton_append, Machine.exec_cons, Machine.exec_cons, hreceive,
    hscan] at hframed
  exact hframed.of_append

theorem Framed.ends (h : Framed seg (newline :: stream)) (hseg : newline ∉ seg) :
    0 ∉ seg ∧ seg.length < kMaxLineLength := by
  have hagrees := h.singleton
  rw [scan_sep] at hagrees
  have hshort : (collected seg).length < kMaxLineLength := by
    by_contra hlong
    have hlt : kMaxLineLength < (collected seg ++ cString [newline]).length := by
      rw [List.length_append]
      exact Nat.lt_succ_of_le (not_lt.mp hlong)
    rw [receive_of_lt hlt] at hagrees
    cases hagrees.2.mp rfl
  rw [receive_newline (newline_notMem_collected hseg) hshort] at hagrees
  have hzero : 0 ∉ seg := by
    intro hmem
    have hne : seg ≠ [] := List.ne_nil_of_mem hmem
    have hlines := hagrees.1
    dsimp only at hlines
    rw [if_neg hne] at hlines
    split_ifs at hlines with hnil
    obtain ⟨heq, -⟩ := List.cons.inj hlines
    rw [← heq] at hmem
    simp [collected] at hmem
  rw [collected_eq hzero] at hshort
  exact ⟨hzero, hshort⟩

theorem Framed.fits (h : Framed seg (newline :: stream)) (hzero : 0 ∉ seg) :
    seg.length + 1 + min (recvSize - 1) (cString stream).length ≤ kMaxLineLength := by
  by_contra hlong
  have hlength : ((cString stream).take (recvSize - 1)).length =
      min (recvSize - 1) (cString stream).length := List.length_take
  generalize hl : (cString stream).take (recvSize - 1) = l at hlength
  have hpre : l <+: stream := by
    rw [← hl]
    exact (List.take_prefix _ _).trans (List.takeWhile_prefix _)
  have hzero' : 0 ∉ newline :: l := by
    rw [← hl, List.mem_cons, not_or]
    exact ⟨by decide, fun hmem => zero_notMem_cString stream (List.mem_of_mem_take hmem)⟩
  have hsize : 1 ≤ recvSize := by decide
  have hread : IsRead (newline :: l) := by
    refine ⟨List.cons_ne_nil _ _, ?_⟩
    rw [List.length_cons]
    omega
  have hagrees := h.read hread (List.cons_prefix_cons.mpr ⟨rfl, hpre⟩)
  have hlt : kMaxLineLength < (seg ++ cString (newline :: l)).length := by
    rw [cString_of_notMem hzero', List.length_append, List.length_cons]
    omega
  have hroom : ([] : Bytes).length + l.length ≤ kMaxLineLength := by
    have hrecv := recvSize_le
    rw [List.length_nil]
    omega
  rw [collected_eq hzero, receive_of_lt hlt, Machine.exec_cons, scan_sep,
    exec_scan_eq_extractLines hroom] at hagrees
  cases hagrees.2.mp rfl

theorem Framed.zero_notMem (h : Framed seg (c :: stream)) (hc : c ≠ newline)
    (hlong : kMaxLineLength ≤ seg.length) (hlength : seg.length ≤ kMaxLineLength) :
    0 ∉ seg ++ [c] := by
  have hagrees := h.singleton
  rw [scan_of_le hc hlong, receive, ← collected_concat] at hagrees
  split_ifs at hagrees with hlt
  · have happend : (seg ++ [c]).length = seg.length + 1 := List.length_append
    have hle := length_collected_le (seg ++ [c])
    have hall : (collected (seg ++ [c])).length = (seg ++ [c]).length := by omega
    intro hmem
    simpa using List.length_filter_eq_length_iff.mp hall 0 hmem
  · cases hagrees.2.mpr rfl

theorem Framable.of_framed (h : Framed seg stream) (hseg : newline ∉ seg)
    (hlength : seg.length ≤ kMaxLineLength) : Framable seg stream := by
  induction stream generalizing seg with
  | nil => trivial
  | cons c stream ih =>
    rw [Framable]
    split_ifs with hc hlong
    · subst hc
      obtain ⟨hzero, hshort⟩ := h.ends hseg
      have htail : Framed [] stream := by
        refine h.tail ?_ (scan_sep seg)
        rw [collected_eq hzero]
        exact receive_newline hseg hshort
      exact ⟨hzero, h.fits hzero, ih htail List.not_mem_nil (Nat.zero_le _)⟩
    · have hzero := h.zero_notMem hc hlong hlength
      rw [List.mem_append, not_or, List.mem_singleton] at hzero
      exact ⟨hzero.1, Ne.symm hzero.2⟩
    · have hconcat : (seg ++ [c]).length ≤ kMaxLineLength := by
        rw [List.length_append]
        exact Nat.lt_of_not_le hlong
      refine ih ?_ ?_ hconcat
      · exact h.tail (receive_singleton hseg hc hconcat) (scan_of_lt hc (not_le.mp hlong))
      · simpa using ⟨hseg, Ne.symm hc⟩

/-- A stream has no zero byte before a newline or before a segment has got too long, and has room
for what may be received with each newline, exactly when, however much of it has come and however
that is cut into reads, `callback_` has been given the non-empty segments that end with a newline
up to the first that is too long, at which and only at which the connection has been dropped. -/
theorem framing_iff (stream : Bytes) :
    Framable [] stream ↔
      ∀ chunks, (∀ chunk ∈ chunks, IsRead chunk) → chunks.flatten <+: stream →
        (Machine.exec receive (some []) chunks).2 = lines newline kMaxLineLength chunks.flatten ∧
          ((Machine.exec receive (some []) chunks).1 = none ↔
            Overlong newline kMaxLineLength chunks.flatten) := by
  have hspec (chunks : List Bytes) :
      Agrees (Machine.exec receive (some []) chunks)
          (Machine.exec (scan newline kMaxLineLength) (some []) chunks.flatten) ↔
        (Machine.exec receive (some []) chunks).2 = lines newline kMaxLineLength chunks.flatten ∧
          ((Machine.exec receive (some []) chunks).1 = none ↔
            Overlong newline kMaxLineLength chunks.flatten) := by
    obtain ⟨hlines, hnone⟩ := exec_scan_nil newline kMaxLineLength chunks.flatten
    rw [Agrees, hlines, hnone]
  constructor
  · rintro h chunks hchunks hpre
    exact (hspec chunks).mp (h.agrees plain_nil hchunks hpre)
  · rintro h
    refine Framable.of_framed (fun chunks hchunks hpre => ?_) List.not_mem_nil (Nat.zero_le _)
    exact (hspec chunks).mpr (h chunks hchunks hpre)

/-- A line with a zero byte is lost when it comes in one piece, and is another in four. -/
theorem framing_loses_line :
    (Machine.exec receive (some []) [[97, 0, 98, 10]]).2 = [] ∧
      (Machine.exec receive (some []) [[97], [0], [98], [10]]).2 = [[97, 98]] ∧
      lines newline kMaxLineLength [97, 0, 98, 10] = [[97, 0, 98]] := by
  refine ⟨by decide, by decide, ?_⟩
  simp [lines, linesOf, newline, kMaxLineLength, List.splitOnP_cons_eq_if_modifyHead]

end VeyraCam.TcpControlClient
