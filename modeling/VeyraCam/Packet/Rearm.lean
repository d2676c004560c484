import VeyraCam.Packet.Reception

/-! # Arming new keys

A pairing arms new keys and pins a new session, but leaves the pending frames,
the last emitted frame and the keyframe gate as they are. The frames of the new
session are those of a new reassembler when the gate is still closed and no
entry is left but one under frame 0, which the code starts over with each
packet, and even that one without its first fragment.
-/

namespace VeyraCam

variable {ω : Type*} {header : PacketHeader} {payload : Bytes}

namespace PendingFrame

def hasFirst (e : Option (PendingFrame ω)) : Bool := (e.bind (·.fragments.find? 0)).isSome

variable {e e' : PendingFrame ω} {f : Fragment ω}

theorem start_of_zero (h : e.frameId = 0) (header : PacketHeader) :
    e.start header = { e with
      frameId := header.frameId
      timestampUs := header.timestampUs
      isKeyframe := header.isKeyframe
      totalFragments := header.fragmentCount
      receivedFragments := 0 } := if_pos h

theorem hasFirst_addFragment (index : UInt16) (e : PendingFrame ω) :
    hasFirst (some (e.addFragment index f)) = (decide (index = 0) || hasFirst (some e)) := by
  unfold addFragment hasFirst
  simp only [Option.bind_some]
  split_ifs with hn
  · rw [OrderedMap.find?_insert]
    by_cases hi : index = 0
    · simp [hi]
    · simp [hi, Ne.symm hi]
  · by_cases hi : index = 0
    · subst hi
      simpa [Option.isSome_iff_ne_none] using hn
    · simp [hi]

theorem eq_zero_of_lt_one {i : UInt16} (h : i < 1) : i = 0 := by
  have := UInt16.lt_iff_toNat_lt.mp h
  rw [← UInt16.toNat_inj]
  simpa using this

theorem isComplete_of_zero (h : e.frameId = 0)
    (hlt : header.fragmentIndex < header.fragmentCount) :
    ((e.start header).addFragment header.fragmentIndex f).isComplete =
      (decide (header.fragmentCount = 1) && !hasFirst (some e)) := by
  rw [start_of_zero h]
  by_cases hone : header.fragmentCount = 1
  · have hzero : header.fragmentIndex = 0 := eq_zero_of_lt_one (hone ▸ hlt)
    unfold addFragment isComplete hasFirst
    cases hf : e.fragments.find? 0 <;> simp [hone, hzero, hf]
  · unfold addFragment isComplete
    cases e.fragments.find? header.fragmentIndex with
    | none => simp [hone, Ne.symm hone]
    | some g =>
      simp only [Option.isNone_some, Bool.false_eq_true, if_false, hone, decide_false,
        Bool.false_and, Bool.and_eq_false_iff, decide_eq_false_iff_not]
      refine or_iff_not_imp_left.mpr fun h₀ => ?_
      rw [← not_not.mp h₀]
      exact UInt16.lt_irrefl 0

theorem parts_of_zero (h : e.frameId = 0) (hlt : header.fragmentIndex < header.fragmentCount)
    (hc : ((e.start header).addFragment header.fragmentIndex f).isComplete = true) :
    ((e.start header).addFragment header.fragmentIndex f).parts = [f] := by
  rw [isComplete_of_zero h hlt] at hc
  obtain ⟨hone, hnew⟩ : header.fragmentCount = 1 ∧ e.fragments.find? 0 = none := by
    simpa [hasFirst] using hc
  have hzero : header.fragmentIndex = 0 := eq_zero_of_lt_one (hone ▸ hlt)
  simp [start_of_zero h, addFragment, parts, hone, hzero, hnew]

theorem assemble_of_zero (h : e.frameId = 0) (header : PacketHeader) (index : UInt16) :
    ((e.start header).addFragment index f).assemble =
      ⟨header.frameId, header.timestampUs, header.isKeyframe,
        ((e.start header).addFragment index f).parts.flatMap (·.payload)⟩ := by
  rw [start_of_zero h]
  unfold addFragment assemble
  split_ifs <;> rfl

end PendingFrame

open PendingFrame

/-- Two maps of pending frames with the same entries, but that under frame 0 the first may
have one where the second has none, or a fuller one. -/
structure Over (m m' : OrderedMap UInt32 (PendingFrame ω)) : Prop where
  rest : ∀ k, k ≠ 0 → m.find? k = m'.find? k
  zero : (m'.find? 0).isSome = true → (m.find? 0).isSome = true
  first : hasFirst (m.find? 0) = hasFirst (m'.find? 0)

namespace Over

variable {m m' : OrderedMap UInt32 (PendingFrame ω)}

theorem refl (m : OrderedMap UInt32 (PendingFrame ω)) : Over m m := ⟨fun _ _ => rfl, id, rfl⟩

theorem eq_of_none (h : Over m m') (h₀ : m.find? 0 = none) : m = m' := by
  refine OrderedMap.eq_of_find? fun k => ?_
  by_cases hk : k = 0
  · subst hk
    rw [h₀, eq_comm, ← Option.not_isSome_iff_eq_none]
    exact fun hs => absurd (h.zero hs) (by simp [h₀])
  · exact h.rest k hk

theorem eraseUpTo (h : Over m m') (k : UInt32) : m.eraseUpTo k = m'.eraseUpTo k := by
  refine OrderedMap.eq_of_find? fun j => ?_
  rw [OrderedMap.find?_eraseUpTo, OrderedMap.find?_eraseUpTo]
  split_ifs with hj
  · rfl
  · refine h.rest j fun h₀ => hj ?_
    rw [h₀]
    exact UInt32.zero_le

theorem insert (h : Over m m') {k : UInt32} {e e' : PendingFrame ω} (hne : k ≠ 0 → e = e')
    (hfirst : k = 0 → hasFirst (some e) = hasFirst (some e')) :
    Over (m.insert k e) (m'.insert k e') := by
  refine ⟨fun j hj => ?_, fun hs => ?_, ?_⟩
  · rw [OrderedMap.find?_insert, OrderedMap.find?_insert]
    split_ifs with hjk
    · rw [hne (hjk ▸ hj)]
    · exact h.rest j hj
  · rw [OrderedMap.find?_insert] at hs ⊢
    split_ifs at hs ⊢ with hk
    · rfl
    · exact h.zero hs
  · rw [OrderedMap.find?_insert, OrderedMap.find?_insert]
    split_ifs with hk
    · exact hfirst hk.symm
    · exact h.first

theorem keys_subset (h : Over m m') : m'.keys ⊆ m.keys := by
  intro k hk
  rw [OrderedMap.mem_keys_iff] at hk ⊢
  by_cases h₀ : k = 0
  · subst h₀
    exact h.zero hk
  · rwa [h.rest k h₀]

theorem keys_subset_of_isSome (h : Over m m') (h₀ : (m'.find? 0).isSome = true) :
    m.keys ⊆ m'.keys := by
  intro k hk
  rw [OrderedMap.mem_keys_iff] at hk ⊢
  by_cases hk₀ : k = 0
  · rwa [hk₀]
  · rwa [← h.rest k hk₀]

theorem size_lt (h : Over m m') (h₀ : (m.find? 0).isSome = true) (h₀' : m'.find? 0 = none) :
    m'.size < m.size := by
  obtain ⟨e, he⟩ := Option.isSome_iff_exists.mp h₀
  rw [Nat.lt_iff_add_one_le, ← OrderedMap.size_insert_of_none h₀' e]
  refine OrderedMap.size_le_of_subset fun k hk => ?_
  rcases OrderedMap.mem_keys_insert.mp hk with rfl | hk
  · exact OrderedMap.mem_keys_iff.mpr h₀
  · exact h.keys_subset hk

/-- The map that is one entry too large loses that under frame 0, if there is one. -/
theorem trim (h : Over m m') (hsize : m.size ≤ 17) :
    Over (if 16 < m.size then m.eraseFirst else m)
      (if 16 < m'.size then m'.eraseFirst else m') := by
  have herase : ∀ {n : OrderedMap UInt32 (PendingFrame ω)}, (n.find? 0).isSome = true →
      n.eraseFirst = n.eraseUpTo 0 :=
    OrderedMap.eraseFirst_eq_eraseUpTo fun _ => UInt32.zero_le
  cases h₀ : m.find? 0 with
  | none =>
    obtain rfl := h.eq_of_none h₀
    exact refl _
  | some e =>
    have hm : (m.find? 0).isSome = true := by rw [h₀]; rfl
    cases h₀' : m'.find? 0 with
    | none =>
      have hlt := h.size_lt hm h₀'
      have hm' : m'.eraseUpTo 0 = m' := OrderedMap.eraseUpTo_of_find? fun j hj => by
        rw [UInt32.le_zero_iff.mp hj, h₀']
      rw [if_neg (by omega : ¬ 16 < m'.size)]
      split_ifs
      · rw [herase hm, h.eraseUpTo, hm']
        exact refl _
      · exact h
    | some e' =>
      have hm' : (m'.find? 0).isSome = true := by rw [h₀']; rfl
      have heq : m.size = m'.size :=
        (OrderedMap.size_le_of_subset (h.keys_subset_of_isSome hm')).antisymm
          (OrderedMap.size_le_of_subset h.keys_subset)
      rw [← heq]
      split_ifs
      · rw [herase hm, herase hm', h.eraseUpTo]
        exact refl _
      · exact h

end Over

namespace FrameReassembler

/-- Two reassemblers that wait for a keyframe, the first with leftovers under frame 0. -/
structure Ahead (r r' : FrameReassembler ω) : Prop where
  crypto : r.crypto = r'.crypto
  replayFilter : r.replayFilter = r'.replayFilter
  sessionLocked : r.sessionLocked = r'.sessionLocked
  session : r.sessionLocked = true → r.expectedSessionId = r'.expectedSessionId
  waiting : r.waitingForKeyframe = true
  waiting' : r'.waitingForKeyframe = true
  pendingFrames : Over r.pendingFrames r'.pendingFrames
  settled : r.Settled
  settled' : r'.Settled

variable {r r' : FrameReassembler ω} {origin : ω}

theorem Ahead.admits_iff (h : r.Ahead r') (header : PacketHeader) :
    r.Admits header ↔ r'.Admits header :=
  admits_congr h.replayFilter h.sessionLocked h.session header

theorem Ahead.wants_iff (h : r.Ahead r') (header : PacketHeader) :
    r.Wants header ↔ r'.Wants header := by
  unfold Wants
  rw [h.waiting, h.waiting', if_pos rfl, if_pos rfl]

theorem Ahead.admitted (h : r.Ahead r') (header : PacketHeader) :
    (r.admitted header).Ahead (r'.admitted header) := by
  refine ⟨by simpa using h.crypto, by simp [h.replayFilter], by simp, fun _ => ?_,
    by simpa using h.waiting, by simpa using h.waiting', by simpa using h.pendingFrames,
    h.settled.congr (by simp), h.settled'.congr (by simp)⟩
  unfold FrameReassembler.admitted lockSession
  simp only [← h.sessionLocked]
  split_ifs with hl
  · exact h.session hl
  · rfl

theorem Ahead.pendingWith_of_ne (h : r.Ahead r') (h₀ : header.frameId ≠ 0) :
    r.pendingWith origin header payload = r'.pendingWith origin header payload := by
  rw [pendingWith, h.pendingFrames.rest _ h₀]
  rfl

theorem Settled.getD_frameId (h : r.Settled) :
    ((r.pendingFrames.find? 0).getD {}).frameId = 0 := by
  cases he : r.pendingFrames.find? 0 with
  | none => rfl
  | some e => exact h.named 0 e he

theorem hasFirst_getD (e : Option (PendingFrame ω)) : hasFirst (some (e.getD {})) = hasFirst e := by
  cases e <;> rfl

theorem Ahead.hasFirst_pendingWith (h : r.Ahead r') (h₀ : header.frameId = 0) :
    hasFirst (some (r.pendingWith origin header payload)) =
      hasFirst (some (r'.pendingWith origin header payload)) := by
  have hstart : ∀ e : PendingFrame ω, hasFirst (some (e.start header)) = hasFirst (some e) := by
    intro e
    simp [hasFirst]
  rw [pendingWith, pendingWith, hasFirst_addFragment, hasFirst_addFragment, hstart, hstart,
    hasFirst_getD, hasFirst_getD, h₀, h.pendingFrames.first]

theorem Ahead.isComplete_pendingWith (h : r.Ahead r')
    (hlt : header.fragmentIndex < header.fragmentCount) :
    (r.pendingWith origin header payload).isComplete =
      (r'.pendingWith origin header payload).isComplete := by
  by_cases h₀ : header.frameId = 0
  · rw [pendingWith, pendingWith, h₀, isComplete_of_zero h.settled.getD_frameId hlt,
      isComplete_of_zero h.settled'.getD_frameId hlt, hasFirst_getD, hasFirst_getD,
      h.pendingFrames.first]
  · rw [h.pendingWith_of_ne h₀]

theorem Ahead.parts_pendingWith (h : r.Ahead r')
    (hlt : header.fragmentIndex < header.fragmentCount)
    (hc : (r.pendingWith origin header payload).isComplete = true) :
    (r.pendingWith origin header payload).parts = (r'.pendingWith origin header payload).parts := by
  by_cases h₀ : header.frameId = 0
  · have hc' := h.isComplete_pendingWith hlt ▸ hc
    rw [pendingWith, h₀] at hc hc'
    rw [pendingWith, pendingWith, h₀, parts_of_zero h.settled.getD_frameId hlt hc,
      parts_of_zero h.settled'.getD_frameId hlt hc']
  · rw [h.pendingWith_of_ne h₀]

theorem Ahead.assemble_pendingWith (h : r.Ahead r')
    (hlt : header.fragmentIndex < header.fragmentCount)
    (hc : (r.pendingWith origin header payload).isComplete = true) :
    (r.pendingWith origin header payload).assemble =
      (r'.pendingWith origin header payload).assemble := by
  have hparts := h.parts_pendingWith hlt hc
  by_cases h₀ : header.frameId = 0
  · rw [pendingWith, pendingWith, h₀] at hparts ⊢
    rw [assemble_of_zero h.settled.getD_frameId, assemble_of_zero h.settled'.getD_frameId, hparts]
  · rw [h.pendingWith_of_ne h₀]

/-- Storing a fragment emits the same in both, and a frame that is emitted takes the leftovers
with it. -/
theorem Ahead.storeFragment (h : r.Ahead r') (hl : r.sessionLocked = true)
    (hlt : header.fragmentIndex < header.fragmentCount) :
    ((r.storeFragment origin header payload).state.Ahead
        (r'.storeFragment origin header payload).state ∨
      (r.storeFragment origin header payload).state =
        (r'.storeFragment origin header payload).state) ∧
      (r.storeFragment origin header payload).calls =
        (r'.storeFragment origin header payload).calls := by
  have hinsert : Over (r.pendingFrames.insert header.frameId (r.pendingWith origin header payload))
      (r'.pendingFrames.insert header.frameId (r'.pendingWith origin header payload)) :=
    h.pendingFrames.insert h.pendingWith_of_ne h.hasFirst_pendingWith
  have hsame : (r.pendingWith origin header payload).isComplete =
      (r'.pendingWith origin header payload).isComplete := h.isComplete_pendingWith hlt
  have hsettled := h.settled.storeFragment origin header payload
  have hsettled' := h.settled'.storeFragment origin header payload
  rcases r.storeFragment_cases origin header payload rfl with ⟨hc, hs⟩ | ⟨hc, hs⟩ <;>
    rcases r'.storeFragment_cases origin header payload rfl with ⟨hc', hs'⟩ | ⟨hc', hs'⟩
  · have hassemble := h.assemble_pendingWith hlt hc
    have hid := congrArg VideoFrame.frameId hassemble
    simp only [PendingFrame.assemble] at hid
    rw [hs, hs', hassemble, h.parts_pendingWith hlt hc]
    refine ⟨.inr ?_, rfl⟩
    simp only [FrameReassembler.mk.injEq]
    exact ⟨by rw [hid, hinsert.eraseUpTo], hid, trivial, h.crypto, h.sessionLocked,
      h.session hl, h.replayFilter⟩
  · rw [hsame, hc'] at hc; cases hc
  · rw [hsame, hc'] at hc; cases hc
  · rw [hs] at hsettled ⊢
    rw [hs'] at hsettled' ⊢
    have hsize := r.pendingFrames.size_insert_le header.frameId
      (r.pendingWith origin header payload)
    have hle := h.settled.size_le
    exact ⟨.inl ⟨h.crypto, h.replayFilter, h.sessionLocked, h.session, h.waiting,
      h.waiting', hinsert.trim (by omega), hsettled, hsettled'⟩, rfl⟩

theorem Ahead.acceptPacket (h : r.Ahead r')
    (hlt : header.fragmentIndex < header.fragmentCount) :
    ((r.acceptPacket origin header payload).state.Ahead
        (r'.acceptPacket origin header payload).state ∨
      (r.acceptPacket origin header payload).state =
        (r'.acceptPacket origin header payload).state) ∧
      (r.acceptPacket origin header payload).calls =
        (r'.acceptPacket origin header payload).calls := by
  cases hf : (r.replayFilter.accept header.sequence).1 with
  | false =>
    rw [acceptPacket_of_refused hf, acceptPacket_of_refused (h.replayFilter ▸ hf)]
    exact ⟨.inl h, rfl⟩
  | true =>
    have hf' := h.replayFilter ▸ hf
    by_cases hs : r.sessionLocked = true ∧ header.sessionId ≠ r.expectedSessionId
    · rw [acceptPacket_of_foreign hf hs.1 hs.2, acceptPacket_of_foreign hf'
        (h.sessionLocked ▸ hs.1) (h.session hs.1 ▸ hs.2)]
      exact ⟨.inl { h with
        replayFilter := by rw [h.replayFilter]
        settled := h.settled.congr rfl
        settled' := h.settled'.congr rfl }, rfl⟩
    · have ha : r.Admits header := ⟨hf, fun hl => by_contra fun hne => hs ⟨hl, hne⟩⟩
      rw [acceptPacket_of_admits ha, acceptPacket_of_admits ((h.admits_iff header).mp ha),
        h.waiting, h.waiting']
      simp only [h.wants_iff]
      split_ifs
      · exact (h.admitted header).storeFragment (by simp) hlt
      · exact ⟨.inl (h.admitted header), rfl⟩

variable {lib : Mbedtls} {mark : Bytes → ω}

/-- Packets with an index below their count are the same to both. -/
theorem Ahead.framesOf_eq (h : r.Ahead r') {ds : List Bytes}
    (hds : ∀ d ∈ ds,
      (PacketHeader.ofBytes d).fragmentIndex < (PacketHeader.ofBytes d).fragmentCount) :
    framesOf lib mark r ds = framesOf lib mark r' ds := by
  refine congrArg emitted (Machine.exec_related (R := fun r r' => r.Ahead r' ∨ r = r')
    (Q := fun d e => d = e ∧
      (PacketHeader.ofBytes d).fragmentIndex < (PacketHeader.ofBytes d).fragmentCount)
    (fun r r' d e hr hd => ?_) (.inl h) (List.forall₂_same.mpr fun d hd => ⟨rfl, hds d hd⟩)).2
  obtain ⟨rfl, hlt⟩ := hd
  rcases hr with h | rfl
  · unfold receive pushPacket
    rw [← h.crypto]
    cases ho : openPacket lib r.crypto d with
    | none => exact ⟨.inl h, rfl⟩
    | some opened =>
      obtain ⟨header, payload⟩ := opened
      rw [← openPacket_header ho] at hlt
      exact h.acceptPacket hlt
  · exact ⟨.inr rfl, rfl⟩

/-- What a pairing does to the reassembler: `SetCrypto`, then `SetExpectedSessionId` if the
challenge named a session. -/
def rearm (r : FrameReassembler ω) (crypto : SessionCrypto) (sessionId : UInt32) :
    FrameReassembler ω :=
  let r := r.setCrypto (some crypto)
  if sessionId ≠ 0 then r.setExpectedSessionId sessionId else r

/-- No frame has been emitted, and nothing is pending but frame 0 without its first fragment. -/
structure Unspoiled (r : FrameReassembler ω) : Prop where
  waiting : r.waitingForKeyframe = true
  pending : ∀ k e, r.pendingFrames.find? k = some e → k = 0 ∧ e.fragments.find? 0 = none

variable {crypto : SessionCrypto} {sessionId : UInt32}

@[simp] theorem rearm_crypto (r : FrameReassembler ω) (crypto : SessionCrypto)
    (sessionId : UInt32) : (r.rearm crypto sessionId).crypto = some crypto := by
  unfold rearm; dsimp only; split_ifs <;> rfl

@[simp] theorem rearm_replayFilter (r : FrameReassembler ω) (crypto : SessionCrypto)
    (sessionId : UInt32) : (r.rearm crypto sessionId).replayFilter = {} := by
  unfold rearm; dsimp only; split_ifs <;> rfl

@[simp] theorem rearm_pendingFrames (r : FrameReassembler ω) (crypto : SessionCrypto)
    (sessionId : UInt32) : (r.rearm crypto sessionId).pendingFrames = r.pendingFrames := by
  unfold rearm; dsimp only; split_ifs <;> rfl

@[simp] theorem rearm_waitingForKeyframe (r : FrameReassembler ω) (crypto : SessionCrypto)
    (sessionId : UInt32) :
    (r.rearm crypto sessionId).waitingForKeyframe = r.waitingForKeyframe := by
  unfold rearm; dsimp only; split_ifs <;> rfl

theorem rearm_session (r r' : FrameReassembler ω) (crypto : SessionCrypto) (sessionId : UInt32) :
    (r.rearm crypto sessionId).sessionLocked = (r'.rearm crypto sessionId).sessionLocked := by
  unfold rearm; dsimp only; split_ifs <;> rfl

theorem rearm_expectedSessionId (r r' : FrameReassembler ω) (crypto : SessionCrypto)
    (sessionId : UInt32) (hl : (r.rearm crypto sessionId).sessionLocked = true) :
    (r.rearm crypto sessionId).expectedSessionId =
      (r'.rearm crypto sessionId).expectedSessionId := by
  unfold rearm at hl ⊢
  dsimp only at hl ⊢
  split_ifs at hl ⊢
  · rfl
  · cases hl

theorem Unspoiled.ahead (h : r.Unspoiled) (hs : r.Settled) (crypto : SessionCrypto)
    (sessionId : UInt32) :
    (r.rearm crypto sessionId).Ahead (rearm {} crypto sessionId) := by
  refine ⟨by simp, by simp, rearm_session .., rearm_expectedSessionId _ _ _ _,
    by simpa using h.waiting, by simp, ⟨fun k hk => ?_, by simp, ?_⟩, hs.congr (by simp),
    settled_of_empty (by simp)⟩
  · rw [rearm_pendingFrames, rearm_pendingFrames, OrderedMap.find?_empty]
    exact Option.eq_none_iff_forall_ne_some.mpr fun e he => hk (h.pending k e he).1
  · rw [rearm_pendingFrames, rearm_pendingFrames]
    cases he : r.pendingFrames.find? 0 with
    | none => rfl
    | some e => simp [hasFirst, (h.pending 0 e he).2]

theorem admits_rearm (hid : header.sessionId = sessionId) (crypto : SessionCrypto) :
    (r.rearm crypto sessionId).Admits header := by
  refine ⟨by rw [rearm_replayFilter]; rfl, fun hl => ?_⟩
  unfold rearm at hl ⊢
  dsimp only at hl ⊢
  split_ifs at hl ⊢
  · exact hid
  · cases hl

theorem emitted_rearm_empty (hid : header.sessionId = sessionId) (hkey : header.isKeyframe = true)
    (hi : header.fragmentIndex = 0) (hn : header.fragmentCount = 1) (origin : ω) (payload : Bytes)
    (crypto : SessionCrypto) :
    emitted ((rearm {} crypto sessionId).acceptPacket origin header payload).calls =
      [⟨header.frameId, header.timestampUs, header.isKeyframe, payload⟩] := by
  have hlt : header.fragmentIndex < header.fragmentCount := by rw [hi, hn]; decide
  have hwith : ((rearm {} crypto sessionId).admitted header).pendingWith origin header payload =
      (({} : PendingFrame ω).start header).addFragment header.fragmentIndex ⟨payload, origin⟩ := by
    rw [pendingWith, admitted_pendingFrames, rearm_pendingFrames, OrderedMap.find?_empty]
    rfl
  have hc : ((({} : PendingFrame ω).start header).addFragment header.fragmentIndex
      ⟨payload, origin⟩).isComplete = true := by
    rw [isComplete_of_zero rfl hlt, hn]
    rfl
  have hw : (rearm ({} : FrameReassembler ω) crypto sessionId).Wants header := by
    simp [Wants, hkey]
  rw [acceptPacket_of_admits (admits_rearm hid crypto), if_pos hw]
  rcases ((rearm {} crypto sessionId).admitted header).storeFragment_cases origin header payload
    hwith.symm with ⟨-, hs⟩ | ⟨hn, -⟩
  · rw [hs, emitted_frameReady, assemble_of_zero rfl, parts_of_zero rfl hlt hc]
    simp
  · rw [hc] at hn; cases hn

theorem of_emitted_eq {f : VideoFrame} (h : emitted (r.acceptPacket origin header payload).calls =
    [f]) : r.Wants header ∧ (r.pendingWith origin header payload).isComplete = true ∧
      (r.pendingWith origin header payload).assemble = f := by
  rcases r.acceptPacket_cases origin header payload with
    ⟨-, hs⟩ | ⟨-, -, -, hs⟩ | ⟨-, -, hs⟩ | ⟨-, hw, hs⟩ <;> rw [hs] at h
  · cases h
  · cases h
  · rw [emitted_missing] at h; cases h
  · rcases (r.admitted header).storeFragment_cases origin header payload
      (r.pendingWith_admitted origin header payload) with
      ⟨hc, hres⟩ | ⟨-, hres⟩ <;> rw [hres] at h
    · exact ⟨hw, hc, (List.cons.inj h).1⟩
    · cases h

/-- A reassembler that emits every one-fragment keyframe as it comes is unspoiled. -/
theorem Settled.unspoiled (hs : r.Settled) (h : ∀ frameId timestampUs, ∃ header payload,
    header.frameId = frameId ∧ header.fragmentIndex < header.fragmentCount ∧
      ∃ origin isKeyframe data, emitted (r.acceptPacket origin header payload).calls =
        [⟨frameId, timestampUs, isKeyframe, data⟩]) : r.Unspoiled := by
  constructor
  · by_contra hwait
    obtain ⟨header, payload, hid, -, origin, _, _, he⟩ := h r.lastEmittedFrameId 0
    have hw := (of_emitted_eq he).1
    rw [Wants, if_neg hwait, hid] at hw
    simp [isStale] at hw
  · intro k e hk
    by_cases h₀ : k = 0
    · subst h₀
      obtain ⟨header, payload, hid, hlt, origin, _, _, he⟩ := h 0 0
      have hc := (of_emitted_eq he).2.1
      rw [pendingWith, hid, hk, Option.getD_some, isComplete_of_zero (hs.named 0 e hk) hlt] at hc
      exact ⟨rfl, by simpa [hasFirst] using (Bool.and_eq_true_iff.mp hc).2⟩
    · -- the entry keeps the timestamp it was made with
      obtain ⟨header, payload, hid, hlt, origin, _, _, he⟩ := h k (e.timestampUs + 1)
      have ht := congrArg VideoFrame.timestampUs (of_emitted_eq he).2.2
      have hstart : e.start header = e := if_neg (by rw [hs.named k e hk]; exact h₀)
      rw [pendingWith, hid, hk, Option.getD_some, hstart] at ht
      unfold PendingFrame.addFragment at ht
      split_ifs at ht <;> simp [PendingFrame.assemble] at ht

end FrameReassembler

end VeyraCam
