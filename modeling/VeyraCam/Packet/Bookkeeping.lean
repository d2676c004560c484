import VeyraCam.Packet.Holes
import VeyraCam.Packet.LostKeyframe

/-! # The counters of the pending frames

An entry counts the fragments it holds in 16 bits and is emitted when the count
reaches the number it records. The count is right in every entry as long as no
packet starts over an entry that is there, as each further packet of frame 0
does, and no entry that records no fragments gets one with every index there is.
-/

namespace VeyraCam

variable {ω : Type*} {lib : Mbedtls} {origin : ω} {header : PacketHeader}
  {packetData payload : Bytes}

namespace PendingFrame

variable {e : PendingFrame ω} {index : UInt16} {f : Fragment ω}

def Counted (e : PendingFrame ω) : Prop := e.receivedFragments.toNat = e.fragments.size

/-- The counter is right, and an entry that records fragments waits for one. -/
structure Waiting (e : PendingFrame ω) : Prop where
  counted : e.Counted
  size_lt : e.totalFragments ≠ 0 → e.fragments.size < e.totalFragments.toNat

theorem addFragment_of_mem (h : index ∈ e.fragments.keys) : e.addFragment index f = e := by
  have hsome := OrderedMap.mem_keys_iff.mp h
  rw [addFragment, if_neg (by simpa [Option.isSome_iff_ne_none] using hsome)]

theorem addFragment_of_not_mem (h : index ∉ e.fragments.keys) :
    (e.addFragment index f).receivedFragments = e.receivedFragments + 1 ∧
      (e.addFragment index f).fragments.size = e.fragments.size + 1 := by
  have hnone : e.fragments.find? index = none := by
    simpa [OrderedMap.mem_keys_iff] using h
  rw [addFragment, if_pos (by simp [hnone])]
  exact ⟨rfl, OrderedMap.size_insert_of_none hnone f⟩

theorem toNat_pos_of_ne_zero {n : UInt16} (h : n ≠ 0) : 0 < n.toNat := by
  refine Nat.pos_of_ne_zero fun hzero => h ?_
  rw [← UInt16.toNat_inj, hzero]
  rfl

theorem waiting_start_empty (header : PacketHeader) :
    (({} : PendingFrame ω).start header).Waiting :=
  ⟨rfl, toNat_pos_of_ne_zero⟩

/-- An entry that counts right goes on to with any fragment but the one that makes the counter
wrap around, which can only be in an entry that records no fragments. -/
theorem Waiting.counted_addFragment_iff (h : e.Waiting) :
    (e.addFragment index f).Counted ↔
      (e.totalFragments = 0 → index ∉ e.fragments.keys → e.fragments.size + 1 < 2 ^ 16) := by
  have hcounted : e.receivedFragments.toNat = e.fragments.size := h.counted
  have hlt := e.receivedFragments.toNat_lt
  by_cases hmem : index ∈ e.fragments.keys
  · rw [addFragment_of_mem hmem]
    exact iff_of_true h.counted fun _ hn => absurd hmem hn
  · obtain ⟨hreceived, hsize⟩ := addFragment_of_not_mem (f := f) hmem
    rw [Counted, hreceived, hsize, UInt16.toNat_add, UInt16.toNat_one]
    constructor
    · intro heq _ _
      omega
    · intro hroom
      have hfits : e.fragments.size + 1 < 2 ^ 16 := by
        by_cases htotal : e.totalFragments = 0
        · exact hroom htotal hmem
        · have hwait := h.size_lt htotal
          have htotal_lt := e.totalFragments.toNat_lt
          omega
      omega

theorem Counted.isComplete_iff (h : e.Counted) :
    e.isComplete = true ↔ e.fragments.size = e.totalFragments.toNat ∧ 0 < e.fragments.size := by
  have hcounted : e.receivedFragments.toNat = e.fragments.size := h
  simp only [isComplete, Bool.and_eq_true, decide_eq_true_eq, ← UInt16.toNat_inj,
    UInt16.lt_iff_toNat_lt, UInt16.toNat_zero, hcounted]
  constructor
  · rintro ⟨heq, hpos⟩
    exact ⟨heq, heq ▸ hpos⟩
  · rintro ⟨heq, hpos⟩
    exact ⟨heq, heq ▸ hpos⟩

theorem Waiting.isComplete_addFragment_iff (h : e.Waiting)
    (hc : (e.addFragment index f).Counted) :
    (e.addFragment index f).isComplete = true ↔
      index ∉ e.fragments.keys ∧ e.fragments.size + 1 = e.totalFragments.toNat := by
  rw [hc.isComplete_iff, addFragment_totalFragments]
  by_cases hmem : index ∈ e.fragments.keys
  · rw [addFragment_of_mem hmem]
    refine iff_of_false ?_ fun hn => hn.1 hmem
    rintro ⟨heq, hpos⟩
    have htotal : e.totalFragments ≠ 0 := by
      intro hzero
      rw [hzero, UInt16.toNat_zero] at heq
      omega
    exact (h.size_lt htotal).ne heq
  · rw [(addFragment_of_not_mem hmem).2]
    simp [hmem]

theorem Waiting.addFragment (h : e.Waiting) (hc : (e.addFragment index f).Counted)
    (hinc : (e.addFragment index f).isComplete = false) : (e.addFragment index f).Waiting := by
  refine ⟨hc, fun htotal => ?_⟩
  by_cases hmem : index ∈ e.fragments.keys
  · rw [addFragment_of_mem hmem] at htotal ⊢
    exact h.size_lt htotal
  · have hlast : ¬ (index ∉ e.fragments.keys ∧
        e.fragments.size + 1 = e.totalFragments.toNat) := by
      rw [← h.isComplete_addFragment_iff hc, hinc]
      exact Bool.false_ne_true
    rw [addFragment_totalFragments] at htotal ⊢
    rw [(addFragment_of_not_mem hmem).2]
    have hlt := h.size_lt htotal
    have hne : e.fragments.size + 1 ≠ e.totalFragments.toNat := fun heq => hlast ⟨hmem, heq⟩
    omega

theorem size_pos_addFragment : 0 < (e.addFragment index f).fragments.size := by
  by_cases hmem : index ∈ e.fragments.keys
  · rw [addFragment_of_mem hmem, ← OrderedMap.length_keys]
    exact List.length_pos_of_mem hmem
  · rw [(addFragment_of_not_mem hmem).2]
    exact Nat.succ_pos _

theorem not_counted_addFragment (hreceived : e.receivedFragments = 0)
    (hpos : 0 < e.fragments.size) : ¬ (e.addFragment index f).Counted := by
  by_cases hmem : index ∈ e.fragments.keys
  · rw [addFragment_of_mem hmem, Counted, hreceived, UInt16.toNat_zero]
    exact hpos.ne
  · obtain ⟨hr, hsize⟩ := addFragment_of_not_mem (f := f) hmem
    have hone : ((0 : UInt16) + 1).toNat = 1 := rfl
    rw [Counted, hr, hsize, hreceived, hone]
    omega

end PendingFrame

namespace FrameReassembler

variable {r : FrameReassembler ω}

/-- Each pending frame is under its identifier and counts the fragments it holds, and there are
at most 16. -/
structure Booked (r : FrameReassembler ω) : Prop where
  size_le : r.pendingFrames.size ≤ 16
  named : ∀ k e, r.pendingFrames.find? k = some e → e.frameId = k
  counted : ∀ k e, r.pendingFrames.find? k = some e → e.Counted

/-- The packet is stored under an index that is new in its entry, which then holds as many
fragments as it records. -/
def BringsLast (lib : Mbedtls) (r : FrameReassembler ω) (packetData : Bytes) : Prop :=
  ∃ opened ∈ openPacket lib r.crypto packetData, r.Admits opened.1 ∧ r.Wants opened.1 ∧
    opened.1.fragmentIndex ∉ (r.entryFor opened.1).fragments.keys ∧
    (r.entryFor opened.1).fragments.size + 1 = (r.entryFor opened.1).totalFragments.toNat

/-- The packet, if it is stored, does not find an entry for frame 0, and does not bring an entry
that records no fragments the last index there is. -/
def KeepsCount (lib : Mbedtls) (r : FrameReassembler ω) (packetData : Bytes) : Prop :=
  ∀ opened ∈ openPacket lib r.crypto packetData, r.Admits opened.1 → r.Wants opened.1 →
    (opened.1.frameId = 0 → r.pendingFrames.find? 0 = none) ∧
    ((r.entryFor opened.1).totalFragments = 0 →
      opened.1.fragmentIndex ∉ (r.entryFor opened.1).fragments.keys →
        (r.entryFor opened.1).fragments.size + 1 < 2 ^ 16)

/-- What holds between packets while the count is kept. -/
structure Waits (r : FrameReassembler ω) : Prop where
  settled : r.Settled
  waiting : ∀ k e, r.pendingFrames.find? k = some e → e.Waiting
  size_pos : ∀ k e, r.pendingFrames.find? k = some e → 0 < e.fragments.size

theorem waits_of_empty (h : r.pendingFrames = ∅) : r.Waits := by
  refine ⟨settled_of_empty h, fun k e he => ?_, fun k e he => ?_⟩ <;> simp [h] at he

theorem Waits.congr {r' : FrameReassembler ω} (h : r.Waits)
    (he : r'.pendingFrames = r.pendingFrames) : r'.Waits :=
  ⟨h.settled.congr he, by rw [he]; exact h.waiting, by rw [he]; exact h.size_pos⟩

theorem Waits.booked (h : r.Waits) : r.Booked :=
  ⟨h.settled.size_le, h.settled.named, fun k e he => (h.waiting k e he).counted⟩

theorem Waits.entryFor (h : r.Waits)
    (hnew : header.frameId = 0 → r.pendingFrames.find? 0 = none) :
    (r.entryFor header).Waiting := by
  unfold FrameReassembler.entryFor
  cases he : r.pendingFrames.find? header.frameId with
  | none => exact PendingFrame.waiting_start_empty header
  | some e =>
    have hne : e.frameId ≠ 0 := by
      rw [h.settled.named _ e he]
      intro hzero
      have hnone := hnew hzero
      rw [← hzero, he] at hnone
      cases hnone
    rw [Option.getD_some, PendingFrame.start, if_neg hne]
    exact h.waiting _ e he

/-- The entry of a stored packet counts right exactly when the packet keeps the count. -/
theorem Waits.counted_pendingWith_iff (h : r.Waits) (origin : ω) (header : PacketHeader)
    (payload : Bytes) : (r.pendingWith origin header payload).Counted ↔
      (header.frameId = 0 → r.pendingFrames.find? 0 = none) ∧
      ((r.entryFor header).totalFragments = 0 →
        header.fragmentIndex ∉ (r.entryFor header).fragments.keys →
          (r.entryFor header).fragments.size + 1 < 2 ^ 16) := by
  rw [pendingWith_eq]
  by_cases hnew : header.frameId = 0 → r.pendingFrames.find? 0 = none
  · rw [(h.entryFor hnew).counted_addFragment_iff]
    exact (and_iff_right hnew).symm
  · refine iff_of_false ?_ fun hkeeps => hnew hkeeps.1
    obtain ⟨hzero, hsome⟩ := Classical.not_imp.mp hnew
    obtain ⟨e, he⟩ := Option.ne_none_iff_exists'.mp hsome
    have hid : e.frameId = 0 := h.settled.named 0 e he
    have hentry : r.entryFor header = e.start header := by
      rw [FrameReassembler.entryFor, hzero, he, Option.getD_some]
    refine PendingFrame.not_counted_addFragment ?_ ?_
    · rw [hentry, PendingFrame.start, if_pos hid]
    · rw [hentry, PendingFrame.start_fragments]
      exact h.size_pos 0 e he

def Emits (lib : Mbedtls) (r : FrameReassembler ω) (origin : ω) (packetData : Bytes) : Prop :=
  ∃ frame origins, .frameReady frame origins ∈ (r.pushPacket lib origin packetData).calls

section Stored

variable (ho : openPacket lib r.crypto packetData = some (header, payload))
  (ha : r.Admits header) (hw : r.Wants header)
include ho ha hw

theorem bringsLast_iff : r.BringsLast lib packetData ↔
    header.fragmentIndex ∉ (r.entryFor header).fragments.keys ∧
      (r.entryFor header).fragments.size + 1 = (r.entryFor header).totalFragments.toNat := by
  unfold BringsLast
  rw [ho]
  simp only [Option.mem_def, Option.some.injEq, exists_eq_left', ha, hw, true_and]

theorem keepsCount_iff (h : r.Waits) (origin : ω) :
    r.KeepsCount lib packetData ↔ (r.pendingWith origin header payload).Counted := by
  rw [h.counted_pendingWith_iff]
  unfold KeepsCount
  rw [ho]
  simp only [Option.mem_def, Option.some.injEq, forall_eq', ha, hw, true_imp_iff]

theorem emits_iff_isComplete (h : r.Settled) (origin : ω) : r.Emits lib origin packetData ↔
    (r.pendingWith origin header payload).isComplete = true := by
  rcases h.pushPacket_of_stored origin ho ha hw with
    ⟨hc, -, frame, origins, hcalls⟩ | ⟨hc, -, hcalls⟩
  · refine iff_of_true ⟨frame, origins, ?_⟩ hc
    rw [hcalls]
    exact List.mem_cons_self
  · refine iff_of_false ?_ (by simp [hc])
    rintro ⟨frame, origins, hmem⟩
    rw [hcalls] at hmem
    cases hmem

theorem Waits.pushPacket_of_counted (h : r.Waits) (origin : ω)
    (hc : (r.pendingWith origin header payload).Counted) :
    (r.pushPacket lib origin packetData).state.Waits := by
  have hentry : (r.entryFor header).Waiting :=
    h.entryFor ((h.counted_pendingWith_iff origin header payload).mp hc).1
  have hsettled : (r.pushPacket lib origin packetData).state.Settled :=
    h.settled.pushPacket origin packetData
  have hcases (k : UInt32) (e : PendingFrame ω)
      (he : (r.pushPacket lib origin packetData).state.pendingFrames.find? k = some e) :
      e = r.pendingWith origin header payload ∨ r.pendingFrames.find? k = some e := by
    rw [pushPacket_of_some ho, acceptPacket_of_admits ha, if_pos hw] at he
    rcases find?_storeFragment he with ⟨-, rfl⟩ | he
    · exact .inl (r.pendingWith_admitted origin header payload).symm
    · exact .inr (by simpa using he)
  refine ⟨hsettled, fun k e he => ?_, fun k e he => ?_⟩
  · rcases hcases k e he with rfl | hold
    · exact hentry.addFragment hc (hsettled.incomplete k _ he)
    · exact h.waiting k e hold
  · rcases hcases k e he with rfl | hold
    · exact PendingFrame.size_pos_addFragment
    · exact h.size_pos k e hold

/-- An entry that counts wrong stays, or is emitted at the wrong fragment. -/
theorem Waits.counted_of_booked (h : r.Waits) (origin : ω)
    (hbooked : (r.pushPacket lib origin packetData).state.Booked)
    (hlast : r.Emits lib origin packetData ↔ r.BringsLast lib packetData) :
    (r.pendingWith origin header payload).Counted := by
  rcases h.settled.pushPacket_of_stored origin ho ha hw with ⟨hc, -, -⟩ | ⟨-, hs, -⟩
  · have hemits := (emits_iff_isComplete ho ha hw h.settled origin).mpr hc
    obtain ⟨hmem, htotal⟩ := (bringsLast_iff ho ha hw).mp (hlast.mp hemits)
    have hsize := (PendingFrame.addFragment_of_not_mem (f := ⟨payload, origin⟩) hmem).2
    have hreceived := of_decide_eq_true (Bool.and_eq_true_iff.mp hc).1
    rw [PendingFrame.Counted, hreceived, pendingWith_eq, hsize, htotal,
      PendingFrame.addFragment_totalFragments]
  · rw [held_of_stored ho ha hw] at hs
    cases he : r.pendingFrames.find? header.frameId with
    | none =>
      rw [h.counted_pendingWith_iff]
      refine ⟨fun hzero => hzero ▸ he, fun _ _ => ?_⟩
      rw [FrameReassembler.entryFor, he, Option.getD_none, PendingFrame.start_fragments]
      exact (by decide : 0 + 1 < 2 ^ 16)
    | some e =>
      have hsize := OrderedMap.size_insert_of_isSome (m := r.pendingFrames)
        (k := header.frameId) (by rw [he]; rfl) (r.pendingWith origin header payload)
      have hle := h.settled.size_le
      rw [if_neg (by omega)] at hs
      refine hbooked.counted header.frameId _ ?_
      rw [hs, OrderedMap.find?_insert_self]

end Stored

theorem Waits.booked_and_emits_iff (h : r.Waits) (origin : ω) (packetData : Bytes) :
    (r.pushPacket lib origin packetData).state.Booked ∧
      (r.Emits lib origin packetData ↔ r.BringsLast lib packetData) ↔
        r.KeepsCount lib packetData := by
  rcases stored_or_not lib r packetData with ⟨header, payload, ho, ha, hw⟩ | hnot
  · rw [keepsCount_iff ho ha hw h origin]
    constructor
    · rintro ⟨hbooked, hlast⟩
      exact h.counted_of_booked ho ha hw origin hbooked hlast
    · intro hc
      have hentry : (r.entryFor header).Waiting :=
        h.entryFor ((h.counted_pendingWith_iff origin header payload).mp hc).1
      refine ⟨(h.pushPacket_of_counted ho ha hw origin hc).booked, ?_⟩
      rw [emits_iff_isComplete ho ha hw h.settled origin, bringsLast_iff ho ha hw]
      exact hentry.isComplete_addFragment_iff hc
  · refine iff_of_true ⟨?_, iff_of_false ?_ ?_⟩ ?_
    · exact (h.congr (pushPacket_pendingFrames hnot)).booked
    · rintro ⟨frame, origins, hmem⟩
      obtain ⟨opened, ho, ha, hw, -⟩ := completes_of_frameReady hmem
      exact hnot opened ho ⟨ha, hw⟩
    · rintro ⟨opened, ho, ha, hw, -⟩
      exact hnot opened ho ⟨ha, hw⟩
    · exact fun opened ho ha hw => absurd ⟨ha, hw⟩ (hnot opened ho)

theorem Waits.pushPacket (h : r.Waits) (origin : ω) (hkeeps : r.KeepsCount lib packetData) :
    (r.pushPacket lib origin packetData).state.Waits := by
  rcases stored_or_not lib r packetData with ⟨header, payload, ho, ha, hw⟩ | hnot
  · exact h.pushPacket_of_counted ho ha hw origin ((keepsCount_iff ho ha hw h origin).mp hkeeps)
  · exact h.congr (pushPacket_pendingFrames hnot)

end FrameReassembler

namespace Receiver

def KeepsCount (lib : Mbedtls) (s : Receiver) : Operation → Prop
  | .pushPacket packetData => s.reassembler.KeepsCount lib packetData
  | _ => True

/-- The frames that a packet completes are those of which it brings the last fragment. -/
def EmitsLast (lib : Mbedtls) (s : Receiver) (packetData : Bytes) : Prop :=
  (∃ e ∈ (s.operate lib (.pushPacket packetData)).2, ∃ frame origins,
    e.call = .frameReady frame origins) ↔ s.reassembler.BringsLast lib packetData

variable {lib : Mbedtls} {s : Receiver}

theorem emitsLast_iff (packetData : Bytes) : s.EmitsLast lib packetData ↔
    (s.reassembler.Emits lib ⟨s.epoch, s.reassembler.crypto, packetData⟩ packetData ↔
      s.reassembler.BringsLast lib packetData) := by
  simp [EmitsLast, FrameReassembler.Emits, Receiver.operate]

theorem waits_operate (h : s.reassembler.Waits) {op : Operation} (hop : s.KeepsCount lib op) :
    (s.operate lib op).1.reassembler.Waits := by
  cases op with
  | pushPacket packetData => exact h.pushPacket _ hop
  | setCrypto | setExpectedSessionId => exact h.congr rfl
  | reset => exact FrameReassembler.waits_of_empty rfl

/-- One operation leaves the books in order and emits what it should exactly when it keeps the
count. -/
theorem booked_and_emitsLast_iff (h : s.reassembler.Waits) (op : Operation) :
    (s.operate lib op).1.reassembler.Booked ∧
      (∀ packetData, op = .pushPacket packetData → s.EmitsLast lib packetData) ↔
        s.KeepsCount lib op := by
  cases op with
  | pushPacket packetData =>
    simp only [Operation.pushPacket.injEq, forall_eq', emitsLast_iff]
    exact h.booked_and_emits_iff ⟨s.epoch, s.reassembler.crypto, packetData⟩ packetData
  | setCrypto | setExpectedSessionId | reset =>
    refine iff_of_true ⟨(waits_operate h ?_).booked, nofun⟩ trivial
    exact trivial

/-- In every run, the books are in order throughout and each packet that brings a frame its last
fragment, and no other, completes it, exactly when each packet keeps the count. -/
theorem booked_and_emitsLast_iff_keepsCount (lib : Mbedtls) (ops : List Operation) :
    ((∀ pre, pre <+: ops → (Machine.exec (operate lib) {} pre).1.reassembler.Booked) ∧
      ∀ pre packetData, pre ++ [.pushPacket packetData] <+: ops →
        (Machine.exec (operate lib) {} pre).1.EmitsLast lib packetData) ↔
      Machine.Guarded (operate lib) (KeepsCount lib) {} ops := by
  have hinit : FrameReassembler.Waits ({} : Receiver).reassembler :=
    FrameReassembler.waits_of_empty rfl
  rw [← Machine.guarded_congr (I := fun s : Receiver => s.reassembler.Waits)
    (fun _ _ h hop => waits_operate h hop) (fun _ op h => booked_and_emitsLast_iff h op) hinit,
    Machine.guarded_iff_forall_concat]
  constructor
  · rintro ⟨hbooked, hlast⟩ pre op hpre
    refine ⟨?_, fun packetData hop => hlast pre packetData (hop ▸ hpre)⟩
    have hnext := hbooked _ hpre
    rwa [Machine.exec_concat] at hnext
  · intro h
    refine ⟨fun pre hpre => ?_, fun pre packetData hpre => (h pre _ hpre).2 packetData rfl⟩
    rcases List.eq_nil_or_concat pre with rfl | ⟨pre, op, rfl⟩
    · exact hinit.booked
    · rw [List.concat_eq_append] at hpre ⊢
      rw [Machine.exec_concat]
      exact (h pre op hpre).1

def zeroFragment (index : UInt16) : Bytes :=
  let p : Packetizer := ⟨7, index.toUInt32, none⟩
  (p.sendPacket .sample (p.videoHeader 0 5 true index 2 1) (.data [9])).2.packet.getD []

set_option maxRecDepth 100000 in
/-- Both fragments of the keyframe are stored, but the entry counts one, and is not emitted. -/
theorem not_booked_zeroFragment :
    ¬ ((∀ pre, pre <+: [.pushPacket (zeroFragment 0), .pushPacket (zeroFragment 1)] →
        (Machine.exec (operate .sample) {} pre).1.reassembler.Booked) ∧
      ∀ pre packetData, pre ++ [.pushPacket packetData] <+:
          [.pushPacket (zeroFragment 0), .pushPacket (zeroFragment 1)] →
        (Machine.exec (operate .sample) {} pre).1.EmitsLast .sample packetData) := by
  rintro ⟨hbooked, -⟩
  have hentry : ((Machine.exec (operate .sample) {} [.pushPacket (zeroFragment 0),
      .pushPacket (zeroFragment 1)]).1.reassembler.pendingFrames.find? 0).map
        (fun e => (e.receivedFragments, e.fragments.size)) = some (1, 2) := by decide
  obtain ⟨e, he, hcount⟩ := Option.map_eq_some_iff.mp hentry
  obtain ⟨hreceived, hsize⟩ := Prod.mk.inj hcount
  have hcounted := (hbooked _ (List.prefix_refl _)).counted 0 e he
  rw [PendingFrame.Counted, hreceived, hsize] at hcounted
  exact absurd hcounted (by decide)

end Receiver

end VeyraCam
