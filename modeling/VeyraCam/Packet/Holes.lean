import VeyraCam.Packet.Assembly
import VeyraCam.Packet.Receiver

/-! # Frames without holes

A frame is emitted when as many different indices have arrived as its entry
records fragments, but it is assembled from the indices below that number. The
two agree when no index at or beyond it has been stored. The entry under frame
0 is started over with each packet, so it is emitted for single fragments only
and needs the first one.
-/

namespace VeyraCam

variable {ω : Type*} {header : PacketHeader} {payload : Bytes} {origin : ω}

namespace PendingFrame

variable {e : PendingFrame ω} {k : UInt32} {Φ : UInt16 → Fragment ω → Prop}

@[simp] theorem addFragment_totalFragments (e : PendingFrame ω) (index : UInt16)
    (f : Fragment ω) : (e.addFragment index f).totalFragments = e.totalFragments := by
  unfold addFragment; split_ifs <;> rfl

theorem mem_keys_addFragment {index i : UInt16} {f : Fragment ω} :
    i ∈ (e.addFragment index f).fragments.keys ↔ i = index ∨ i ∈ e.fragments.keys := by
  unfold addFragment
  split_ifs with hn
  · exact OrderedMap.mem_keys_insert
  · refine ⟨.inr, fun h => h.elim (fun hi => ?_) id⟩
    rw [hi, OrderedMap.mem_keys_iff]
    exact Option.isSome_iff_ne_none.mpr fun hne => hn (Option.isNone_iff_eq_none.mpr hne)

/-- The stored fragments have a property, and outside frame 0 the counter of an entry is the
number of stored fragments and has not passed the total. -/
structure Tally (Φ : UInt16 → Fragment ω → Prop) (k : UInt32) (e : PendingFrame ω) : Prop where
  filed : ∀ i f, e.fragments.find? i = some f → Φ i f
  counted : k ≠ 0 → e.receivedFragments = .ofNat e.fragments.size
  bounded : k ≠ 0 → 0 < e.totalFragments → e.fragments.size ≤ e.totalFragments.toNat

theorem Tally.start_empty (header : PacketHeader) :
    Tally Φ k (({} : PendingFrame ω).start header) :=
  ⟨fun _ _ hf => (Option.some_ne_none _ hf.symm).elim, fun _ => rfl, fun _ _ => Nat.zero_le _⟩

theorem Tally.start (h : e.Tally Φ header.frameId) (hname : e.frameId = header.frameId) :
    (e.start header).Tally Φ header.frameId := by
  by_cases h₀ : header.frameId = 0
  · exact ⟨by simpa using h.filed, fun hk => absurd h₀ hk, fun hk => absurd h₀ hk⟩
  · rwa [PendingFrame.start, if_neg (by rw [hname]; exact h₀)]

theorem Tally.addFragment (h : e.Tally Φ k) (hc : k ≠ 0 → e.isComplete = false) {index : UInt16}
    {f : Fragment ω} (hf : Φ index f) : (e.addFragment index f).Tally Φ k := by
  refine ⟨fun i g hg => ?_, fun hk => ?_, fun hk hpos => ?_⟩
  · rcases find?_addFragment hg with hg | ⟨rfl, rfl⟩
    · exact h.filed i g hg
    · exact hf
  · unfold PendingFrame.addFragment
    split_ifs with hn
    · simp only [OrderedMap.size_insert_of_none (Option.isNone_iff_eq_none.mp hn), h.counted hk,
        UInt16.ofNat_add]
      rfl
    · exact h.counted hk
  · rw [addFragment_totalFragments] at hpos ⊢
    have hle := h.bounded hk hpos
    have hc := hc hk
    simp only [isComplete, h.counted hk, hpos, decide_true, Bool.and_true,
      decide_eq_false_iff_not] at hc
    have hne : e.fragments.size ≠ e.totalFragments.toNat := fun he =>
      hc (by rw [he, UInt16.ofNat_toNat])
    have hsize : (e.addFragment index f).fragments.size ≤ e.fragments.size + 1 := by
      unfold PendingFrame.addFragment
      split_ifs
      · exact OrderedMap.size_insert_le ..
      · exact Nat.le_succ _
    omega

theorem Tally.size_eq (h : e.Tally Φ k) (hk : k ≠ 0) (hc : e.isComplete = true) :
    e.fragments.size = e.totalFragments.toNat := by
  simp only [isComplete, h.counted hk, Bool.and_eq_true, decide_eq_true_eq] at hc
  obtain ⟨he, hpos⟩ := hc
  have hle := h.bounded hk hpos
  have hlt := e.totalFragments.toNat_lt
  rw [← he, UInt16.toNat_ofNat', Nat.mod_eq_of_lt (by omega)]

def Full (e : PendingFrame ω) : Prop :=
  ∀ i < e.totalFragments.toNat, (e.fragments.find? (.ofNat i)).isSome

theorem full_iff_keys : e.Full ↔
    ∀ i < e.totalFragments.toNat, ∃ j ∈ e.fragments.keys, j.toNat = i := by
  exact forall₂_congr fun i hi => isSome_find?_ofNat_iff (hi.trans e.totalFragments.toNat_lt)

theorem Tally.full_iff (h : e.Tally Φ k) (hk : k ≠ 0) (hc : e.isComplete = true) :
    e.Full ↔ ∀ i ∈ e.fragments.keys, i < e.totalFragments := by
  have hsize := h.size_eq hk hc
  simp only [full_iff_keys, UInt16.lt_iff_toNat_lt]
  constructor
  · exact OrderedMap.lt_of_size_eq toNat_injective hsize
  · intro hlt
    exact (OrderedMap.size_eq_iff toNat_injective hlt).mp hsize

theorem totalFragments_of_zero (h₀ : e.frameId = 0) {f : Fragment ω}
    (hc : ((e.start header).addFragment header.fragmentIndex f).isComplete = true) :
    ((e.start header).addFragment header.fragmentIndex f).totalFragments = 1 := by
  rw [addFragment_totalFragments]
  unfold PendingFrame.start PendingFrame.addFragment isComplete at hc
  unfold PendingFrame.start
  simp only [if_pos h₀] at hc ⊢
  split_ifs at hc <;> obtain ⟨he, hpos⟩ := Bool.and_eq_true_iff.mp hc
  · exact (of_decide_eq_true he).symm
  · rw [← of_decide_eq_true he] at hpos
    exact absurd (of_decide_eq_true hpos) (UInt16.lt_irrefl 0)

theorem full_iff_of_one (h : e.totalFragments = 1) :
    e.Full ↔ (e.fragments.find? 0).isSome := by
  unfold Full
  rw [h]
  constructor
  · exact fun hf => hf 0 (by decide)
  · intro hf i hi
    obtain rfl : i = 0 := Nat.lt_one_iff.mp hi
    exact hf

theorem length_parts_iff : e.parts.length = e.totalFragments.toNat ↔ e.Full := by
  have h := List.filterMap_length_eq_length
    (f := fun i => e.fragments.find? (.ofNat i)) (l := List.range e.totalFragments.toNat)
  simp only [List.length_range, List.mem_range] at h
  exact h

theorem Full.getElem?_parts (h : e.Full) {i : ℕ} (hi : i < e.totalFragments.toNat) :
    e.parts[i]? = e.fragments.find? (.ofNat i) := by
  have hget : ∀ j ∈ List.range e.totalFragments.toNat, ∃ f,
      e.fragments.find? (.ofNat j) = some f :=
    fun j hj => Option.isSome_iff_exists.mp (h j (List.mem_range.mp hj))
  obtain ⟨g, -⟩ := hget i (List.mem_range.mpr hi)
  have : Nonempty (Fragment ω) := ⟨g⟩
  choose! f hf using hget
  have hparts : e.parts = (List.range e.totalFragments.toNat).map f :=
    List.filterMap_eq_map_iff_forall_eq_some.mpr hf
  rw [hparts, List.getElem?_map, List.getElem?_range hi, hf i (List.mem_range.mpr hi)]
  rfl

theorem isComplete_start_empty (header : PacketHeader) :
    (({} : PendingFrame ω).start header).isComplete = false := by
  by_contra hc
  obtain ⟨he, hpos⟩ := Bool.and_eq_true_iff.mp (Bool.not_eq_false _ ▸ hc)
  rw [← of_decide_eq_true he] at hpos
  exact absurd (of_decide_eq_true hpos) (UInt16.lt_irrefl 0)

end PendingFrame

namespace FrameReassembler

variable {r : FrameReassembler ω} {Φ : UInt32 → UInt16 → Fragment ω → Prop}

def entryFor (r : FrameReassembler ω) (header : PacketHeader) : PendingFrame ω :=
  ((r.pendingFrames.find? header.frameId).getD {}).start header

theorem pendingWith_eq (origin : ω) (header : PacketHeader) (payload : Bytes) :
    r.pendingWith origin header payload =
      (r.entryFor header).addFragment header.fragmentIndex ⟨payload, origin⟩ := rfl

/-- No index that is stored in the packet's entry, nor the packet's own, is at or beyond the
number of fragments the entry records; under frame 0, the first fragment is there. -/
def InRange (r : FrameReassembler ω) (header : PacketHeader) : Prop :=
  if header.frameId = 0 then
    header.fragmentIndex = 0 ∨ 0 ∈ (r.entryFor header).fragments.keys
  else
    header.fragmentIndex < (r.entryFor header).totalFragments ∧
      ∀ i ∈ (r.entryFor header).fragments.keys, i < (r.entryFor header).totalFragments

instance (r : FrameReassembler ω) (header : PacketHeader) : Decidable (r.InRange header) :=
  -- the stored indices are gone through, not all of `UInt16`
  have := List.decidableBAll (· < (r.entryFor header).totalFragments)
    (r.entryFor header).fragments.keys
  inferInstanceAs (Decidable (if header.frameId = 0 then
      header.fragmentIndex = 0 ∨ 0 ∈ (r.entryFor header).fragments.keys
    else
      header.fragmentIndex < (r.entryFor header).totalFragments ∧
        ∀ i ∈ (r.entryFor header).fragments.keys, i < (r.entryFor header).totalFragments))

def Tallied (Φ : UInt32 → UInt16 → Fragment ω → Prop) (r : FrameReassembler ω) : Prop :=
  ∀ k e, r.pendingFrames.find? k = some e → e.Tally (Φ k) k

theorem tallied_of_empty (h : r.pendingFrames = ∅) : r.Tallied Φ := by
  intro k e he
  rw [h] at he
  cases he

theorem Tallied.congr {r' : FrameReassembler ω} (h : r.Tallied Φ)
    (he : r'.pendingFrames = r.pendingFrames) : r'.Tallied Φ := by
  unfold Tallied; rw [he]; exact h

theorem Tallied.pendingWith (h : r.Tallied Φ) (hs : r.Settled)
    (hnew : Φ header.frameId header.fragmentIndex ⟨payload, origin⟩) :
    (r.pendingWith origin header payload).Tally (Φ header.frameId) header.frameId := by
  rw [pendingWith_eq, entryFor]
  cases he : r.pendingFrames.find? header.frameId with
  | none =>
    exact (PendingFrame.Tally.start_empty header).addFragment
      (fun _ => PendingFrame.isComplete_start_empty header) hnew
  | some e =>
    refine ((h _ e he).start (hs.named _ e he)).addFragment (fun hk => ?_) hnew
    rw [PendingFrame.start, if_neg (by rw [hs.named _ e he]; exact hk)]
    exact hs.incomplete _ e he

theorem Tallied.storeFragment (h : r.Tallied Φ) (hs : r.Settled)
    (hnew : Φ header.frameId header.fragmentIndex ⟨payload, origin⟩) :
    (r.storeFragment origin header payload).state.Tallied Φ := by
  intro k e he
  rcases find?_storeFragment he with ⟨rfl, rfl⟩ | he
  · exact h.pendingWith hs hnew
  · exact h k e he

theorem Tallied.full_iff (h : r.Tallied Φ) (hs : r.Settled)
    (hnew : Φ header.frameId header.fragmentIndex ⟨payload, origin⟩)
    (hc : (r.pendingWith origin header payload).isComplete = true) :
    (r.pendingWith origin header payload).Full ↔ r.InRange header := by
  unfold InRange
  split_ifs with h₀
  · have hzero : ((r.pendingFrames.find? header.frameId).getD {}).frameId = 0 := by
      cases he : r.pendingFrames.find? header.frameId with
      | none => rfl
      | some e => rw [Option.getD_some, hs.named _ e he, h₀]
    have hone : (r.pendingWith origin header payload).totalFragments = 1 :=
      PendingFrame.totalFragments_of_zero hzero hc
    rw [PendingFrame.full_iff_of_one hone, ← OrderedMap.mem_keys_iff, pendingWith_eq,
      PendingFrame.mem_keys_addFragment, eq_comm]
  · rw [(h.pendingWith hs hnew).full_iff h₀ hc, pendingWith_eq,
      PendingFrame.addFragment_totalFragments]
    simp only [PendingFrame.mem_keys_addFragment, forall_eq_or_imp]

end FrameReassembler

/-- A frame that is emitted, with the number of fragments recorded for it and the packets it
is assembled from. -/
structure Completion where
  totalFragments : UInt16
  frame : VideoFrame
  origins : List Arrival
  deriving DecidableEq

namespace Receiver

variable (lib : Mbedtls)

/-- `operate`, with the frames that are emitted. -/
def completions (s : Receiver) (op : Operation) : Receiver × List Completion :=
  ((s.operate lib op).1, match op with
    | .pushPacket packetData => (s.operate lib op).2.filterMap fun e => match e.call with
      | .frameReady frame origins =>
        let header := PacketHeader.ofBytes packetData
        some ⟨(s.reassembler.entryFor header).totalFragments, frame, origins⟩
      | .missingKeyframe _ => none
    | _ => [])

/-- The fragment is the payload of a packet of the run, with the given identifier and index,
as it was opened on arrival. -/
def Received (ops : List Operation) (frameId : UInt32) (index : UInt16) (f : Fragment Arrival) :
    Prop :=
  .pushPacket f.origin.packetData ∈ ops ∧ ∃ header,
    FrameReassembler.openPacket lib f.origin.crypto f.origin.packetData =
      some (header, f.payload) ∧ header.frameId = frameId ∧ header.fragmentIndex = index

/-- Every index below the recorded number has been received, and the frame is the
concatenation of these fragments in order. -/
def Whole (ops : List Operation) (c : Completion) : Prop :=
  ∃ fragments : List (Fragment Arrival), fragments.length = c.totalFragments.toNat ∧
    c.origins = fragments.map (·.origin) ∧ c.frame.data = fragments.flatMap (·.payload) ∧
    ∀ i f, fragments[i]? = some f → Received lib ops c.frame.frameId (.ofNat i) f

/-- A packet that completes a frame finds no index out of range. -/
def KeepsRange (s : Receiver) : Operation → Prop
  | .pushPacket packetData =>
    s.reassembler.Completes lib ⟨s.epoch, s.reassembler.crypto, packetData⟩ packetData →
      s.reassembler.InRange (.ofBytes packetData)
  | _ => True

instance (s : Receiver) : DecidablePred (s.KeepsRange lib)
  | .pushPacket _ => inferInstanceAs (Decidable (_ → _))
  | .setCrypto _ => inferInstanceAs (Decidable True)
  | .setExpectedSessionId _ => inferInstanceAs (Decidable True)
  | .reset => inferInstanceAs (Decidable True)

variable {lib}

/-- What holds of the pending frames after the operations of a run. -/
def Accounted (lib : Mbedtls) (ops : List Operation) (s : Receiver) : Prop :=
  s.reassembler.Settled ∧ s.reassembler.Tallied (Received lib ops)

theorem Accounted.operate {ops : List Operation} {s : Receiver} (h : s.Accounted lib ops)
    {op : Operation} (hop : op ∈ ops) : (s.operate lib op).1.Accounted lib ops := by
  obtain ⟨hs, ht⟩ := h
  cases op with
  | pushPacket packetData =>
    refine ⟨hs.pushPacket _ packetData, ?_⟩
    unfold Receiver.operate FrameReassembler.pushPacket
    dsimp only
    split
    · exact ht
    · next header payload ho =>
      rcases s.reassembler.acceptPacket_cases ⟨s.epoch, s.reassembler.crypto, packetData⟩ header
        payload with ⟨-, he⟩ | ⟨-, -, -, he⟩ | ⟨-, -, he⟩ | ⟨-, -, he⟩ <;> rw [he]
      · exact ht
      · exact ht.congr rfl
      · exact ht.congr (by simp)
      · exact (ht.congr (by simp)).storeFragment (hs.congr (by simp)) ⟨hop, header, ho, rfl, rfl⟩
  | setCrypto crypto => exact ⟨hs.congr rfl, ht.congr rfl⟩
  | setExpectedSessionId sessionId => exact ⟨hs.congr rfl, ht.congr rfl⟩
  | reset =>
    exact ⟨FrameReassembler.settled_of_empty rfl, FrameReassembler.tallied_of_empty rfl⟩

theorem whole_iff_full {ops : List Operation} {k : UInt32} {e : PendingFrame Arrival}
    (h : e.Tally (Received lib ops k) k) (hname : e.frameId = k) :
    Whole lib ops ⟨e.totalFragments, e.assemble, e.parts.map (·.origin)⟩ ↔ e.Full := by
  constructor
  · rintro ⟨fragments, hlength, horigins, -, -⟩
    rw [← PendingFrame.length_parts_iff, ← hlength]
    simpa using congrArg List.length horigins
  · intro hf
    refine ⟨e.parts, PendingFrame.length_parts_iff.mpr hf, rfl, rfl, fun i f hi => ?_⟩
    have hlt : i < e.totalFragments.toNat := by
      rw [← PendingFrame.length_parts_iff.mpr hf]
      exact (List.getElem?_eq_some_iff.mp hi).1
    rw [hf.getElem?_parts hlt] at hi
    change Received lib ops e.frameId (.ofNat i) f
    rw [hname]
    exact h.filed _ f hi

/-- The frame of one packet is whole when the packet finds no index out of range. -/
theorem Accounted.whole_iff {ops : List Operation} {s : Receiver} (h : s.Accounted lib ops)
    {op : Operation} (hop : op ∈ ops) :
    (∀ c ∈ (s.completions lib op).2, Whole lib ops c) ↔ s.KeepsRange lib op := by
  cases op with
  | setCrypto crypto => simp [completions, KeepsRange]
  | setExpectedSessionId sessionId => simp [completions, KeepsRange]
  | reset => simp [completions, KeepsRange]
  | pushPacket packetData =>
    by_cases hcomp : s.reassembler.Completes lib ⟨s.epoch, s.reassembler.crypto, packetData⟩
        packetData
    · obtain ⟨header, payload, ho, -, -, hc, hcalls, -⟩ := hcomp.pushPacket_eq
      have hnew : Received lib ops header.frameId header.fragmentIndex
          ⟨payload, ⟨s.epoch, s.reassembler.crypto, packetData⟩⟩ := ⟨hop, header, ho, rfl, rfl⟩
      have htotal := PendingFrame.addFragment_totalFragments (s.reassembler.entryFor header)
        header.fragmentIndex ⟨payload, (⟨s.epoch, s.reassembler.crypto, packetData⟩ : Arrival)⟩
      simp only [completions, Receiver.operate, hcalls, List.map_cons, List.map_nil,
        List.filterMap_cons, List.filterMap_nil, List.forall_mem_singleton, KeepsRange, hcomp,
        true_imp_iff, ← FrameReassembler.openPacket_header ho]
      rw [← h.2.full_iff h.1 hnew hc, ← htotal, ← FrameReassembler.pendingWith_eq]
      exact whole_iff_full (h.2.pendingWith h.1 hnew) (h.1.pendingWith_frameId _ header payload)
    · refine ⟨fun _ hc => absurd hc hcomp, fun _ c hm => ?_⟩
      obtain ⟨e, he, hcall⟩ := List.mem_filterMap.mp hm
      obtain ⟨call, hcalls, rfl⟩ := List.mem_map.mp he
      cases call with
      | frameReady frame origins =>
        exact absurd (FrameReassembler.completes_of_frameReady hcalls) hcomp
      | missingKeyframe frameId => cases hcall

/-- In every run, all frames are whole exactly when each packet that completes a frame finds no
index out of range. -/
theorem whole_iff_keepsRange (lib : Mbedtls) (ops : List Operation) :
    (∀ c ∈ (Machine.exec (completions lib) {} ops).2, Whole lib ops c) ↔
      Machine.Guarded (completions lib) (KeepsRange lib) {} ops := by
  have hstep (s : Receiver) (op : Operation) (h : s.Accounted lib ops) (hop : op ∈ ops) :
      (s.completions lib op).1.Accounted lib ops := h.operate hop
  have hinit : Accounted lib ops {} :=
    ⟨FrameReassembler.settled_of_empty rfl, FrameReassembler.tallied_of_empty rfl⟩
  exact Machine.forall_outputs_iff_guarded (Q := (· ∈ ops)) hstep
    (fun _ _ h hop => h.whole_iff hop) hinit fun _ hop => hop

set_option maxRecDepth 100000 in
example : Machine.Guarded (completions .sample) (KeepsRange .sample) {}
    [.pushPacket (sampleFragment none 0), .pushPacket (sampleFragment none 1)] := by decide

def strayFragment : Bytes :=
  let p : Packetizer := ⟨7, 0, none⟩
  (p.sendPacket .sample (p.videoHeader 1 5 true 1 1 1) (.data [9])).2.packet.getD []

set_option maxRecDepth 100000 in
/-- A keyframe of one fragment whose index is 1 is emitted as an empty frame. -/
theorem not_whole_strayFragment :
    ¬ ∀ c ∈ (Machine.exec (completions .sample) {} [.pushPacket strayFragment]).2,
      Whole .sample [.pushPacket strayFragment] c := by
  intro h
  have he : (Machine.exec (completions .sample) {} [.pushPacket strayFragment]).2 =
      [⟨1, ⟨1, 5, true, []⟩, []⟩] := by decide
  rw [he] at h
  obtain ⟨fragments, hlength, horigins, -⟩ := h _ List.mem_cons_self
  rw [← List.length_map (·.origin), ← horigins] at hlength
  exact absurd hlength (by decide)

end Receiver

end VeyraCam
