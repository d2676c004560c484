import VeyraCam.Crypto.SessionCrypto
import VeyraCam.Library.OrderedMap
import VeyraCam.Packet.ReplayFilter
import VeyraCam.Protocol.Header

/-! # The frame reassembler

`FrameReassembler::PushPacket` and its sibling operations. Each stored payload
carries a mark of type `ω` chosen by the caller, which no operation reads: it
records where the payload came from, so that a frame can be traced back to the
packets it was assembled from.
-/

namespace VeyraCam

structure VideoFrame where
  frameId : UInt32 := 0
  timestampUs : UInt64 := 0
  isKeyframe : Bool := false
  data : Bytes := []
  deriving DecidableEq, Repr

/-- A stored payload with the mark of the packet that brought it. -/
structure Fragment (ω : Type*) where
  payload : Bytes
  origin : ω
  deriving DecidableEq

structure PendingFrame (ω : Type*) where
  frameId : UInt32 := 0
  timestampUs : UInt64 := 0
  isKeyframe : Bool := false
  totalFragments : UInt16 := 0
  receivedFragments : UInt16 := 0
  fragments : OrderedMap UInt16 (Fragment ω) := ∅
  deriving DecidableEq

/-- A call of one of the two callbacks, with the marks of the payloads in the frame. -/
inductive Callback (ω : Type*) where
  | frameReady (frame : VideoFrame) (origins : List ω)
  | missingKeyframe (frameId : UInt32)
  deriving DecidableEq

structure FrameReassembler (ω : Type*) where
  pendingFrames : OrderedMap UInt32 (PendingFrame ω) := ∅
  lastEmittedFrameId : UInt32 := 0
  waitingForKeyframe : Bool := true
  crypto : Option SessionCrypto := none
  sessionLocked : Bool := false
  expectedSessionId : UInt32 := 0
  replayFilter : ReplayFilter := {}
  deriving DecidableEq

variable {ω : Type*}

namespace PendingFrame

/-- A new entry takes its fields from the first packet, the entry under frame 0 from each. -/
def start (pending : PendingFrame ω) (header : PacketHeader) : PendingFrame ω :=
  if pending.frameId = 0 then
    { pending with
      frameId := header.frameId
      timestampUs := header.timestampUs
      isKeyframe := header.isKeyframe
      totalFragments := header.fragmentCount
      receivedFragments := 0 }
  else pending

def addFragment (pending : PendingFrame ω) (index : UInt16) (fragment : Fragment ω) :
    PendingFrame ω :=
  if (pending.fragments.find? index).isNone then
    { pending with
      fragments := pending.fragments.insert index fragment
      receivedFragments := pending.receivedFragments + 1 }
  else pending

def isComplete (pending : PendingFrame ω) : Bool :=
  pending.receivedFragments = pending.totalFragments && 0 < pending.totalFragments

/-- The stored fragments with an index below `totalFragments`, in index order. -/
def parts (pending : PendingFrame ω) : List (Fragment ω) :=
  (List.range pending.totalFragments.toNat).filterMap fun i => pending.fragments.find? (.ofNat i)

def assemble (pending : PendingFrame ω) : VideoFrame where
  frameId := pending.frameId
  timestampUs := pending.timestampUs
  isKeyframe := pending.isKeyframe
  data := pending.parts.flatMap (·.payload)

end PendingFrame

namespace FrameReassembler

/-- What `PushPacket` returns, the state it leaves and the callbacks it makes. -/
structure PushResult (ω : Type*) where
  accepted : Bool
  state : FrameReassembler ω
  calls : List (Callback ω)
  deriving DecidableEq

variable (lib : Mbedtls)

/-- The checks of `PushPacket` that read only the packet and the key: header, length,
stream id, then decryption or the ban on plaintext under a key. -/
def openPacket (crypto : Option SessionCrypto) (packetData : Bytes) :
    Option (PacketHeader × Bytes) :=
  match deserializeHeader packetData with
  | none => none
  | some header =>
    let payload := (packetData.drop headerSize).take header.payloadLength.toNat
    if packetData.length < headerSize + header.payloadLength.toNat then none
    else if header.streamId ≠ 0 ∧ header.streamId ≠ 1 then none
    else if header.isEncrypted then
      match crypto with
      | none => none
      | some crypto =>
        (crypto.decrypt lib payload header.sequence (packetData.take headerSize)).map (header, ·)
    else if crypto.isSome then none
    else some (header, payload)

/-- Frames at or before the last emitted one, up to half the number range behind it. -/
def isStale (r : FrameReassembler ω) (frameId : UInt32) : Bool :=
  frameId ≤ r.lastEmittedFrameId && r.lastEmittedFrameId - frameId < 0x7FFFFFFF

/-- The entry of the packet's frame in `pendingFrames_` once the payload is stored in it. -/
def pendingWith (r : FrameReassembler ω) (origin : ω) (header : PacketHeader) (payload : Bytes) :
    PendingFrame ω :=
  let entry := (r.pendingFrames.find? header.frameId).getD {}
  (entry.start header).addFragment header.fragmentIndex ⟨payload, origin⟩

/-- The end of `PushPacket`: store the payload, then emit the frame if it is complete or trim
the map if it has grown too large. -/
def storeFragment (r : FrameReassembler ω) (origin : ω) (header : PacketHeader) (payload : Bytes) :
    PushResult ω :=
  let pending := r.pendingWith origin header payload
  let pendingFrames := r.pendingFrames.insert header.frameId pending
  if pending.isComplete then
    let frame := pending.assemble
    { accepted := true
      state := { r with
        lastEmittedFrameId := frame.frameId
        waitingForKeyframe := false
        pendingFrames := pendingFrames.eraseUpTo frame.frameId }
      calls := [.frameReady frame (pending.parts.map (·.origin))] }
  else
    { accepted := true
      state := { r with
        pendingFrames :=
          if 16 < pendingFrames.size then pendingFrames.eraseFirst else pendingFrames }
      calls := [] }

def lockSession (r : FrameReassembler ω) (sessionId : UInt32) : FrameReassembler ω :=
  if r.sessionLocked then r else { r with expectedSessionId := sessionId, sessionLocked := true }

/-- `PushPacket` from the replay filter on. The filter commits the sequence number before the
remaining checks. -/
def acceptPacket (r : FrameReassembler ω) (origin : ω) (header : PacketHeader) (payload : Bytes) :
    PushResult ω :=
  let (fresh, replayFilter) := r.replayFilter.accept header.sequence
  let r := { r with replayFilter }
  if !fresh then ⟨false, r, []⟩
  else if r.sessionLocked && header.sessionId != r.expectedSessionId then ⟨false, r, []⟩
  else
    let r := r.lockSession header.sessionId
    if r.waitingForKeyframe && !header.isKeyframe then
      ⟨false, r, [.missingKeyframe header.frameId]⟩
    else if !r.waitingForKeyframe && r.isStale header.frameId then ⟨false, r, []⟩
    else r.storeFragment origin header payload

def pushPacket (r : FrameReassembler ω) (origin : ω) (packetData : Bytes) : PushResult ω :=
  match openPacket lib r.crypto packetData with
  | none => ⟨false, r, []⟩
  | some (header, payload) => r.acceptPacket origin header payload

def setCrypto (r : FrameReassembler ω) (crypto : Option SessionCrypto) : FrameReassembler ω :=
  { r with crypto, replayFilter := {}, sessionLocked := false }

def setExpectedSessionId (r : FrameReassembler ω) (sessionId : UInt32) : FrameReassembler ω :=
  { r with expectedSessionId := sessionId, sessionLocked := true }

def reset (r : FrameReassembler ω) : FrameReassembler ω :=
  { r with
    pendingFrames := ∅
    lastEmittedFrameId := 0
    waitingForKeyframe := true
    replayFilter := {}
    sessionLocked := false }

variable {lib : Mbedtls}

/-- The state in which a fresh packet of the right session meets the keyframe gate. -/
def admitted (r : FrameReassembler ω) (header : PacketHeader) : FrameReassembler ω :=
  { r with replayFilter := (r.replayFilter.accept header.sequence).2 }.lockSession header.sessionId

@[simp] theorem admitted_crypto (r : FrameReassembler ω) (header : PacketHeader) :
    (r.admitted header).crypto = r.crypto := by
  unfold admitted lockSession; split_ifs <;> rfl

@[simp] theorem admitted_pendingFrames (r : FrameReassembler ω) (header : PacketHeader) :
    (r.admitted header).pendingFrames = r.pendingFrames := by
  unfold admitted lockSession; split_ifs <;> rfl

@[simp] theorem admitted_waitingForKeyframe (r : FrameReassembler ω) (header : PacketHeader) :
    (r.admitted header).waitingForKeyframe = r.waitingForKeyframe := by
  unfold admitted lockSession; split_ifs <;> rfl

@[simp] theorem admitted_lastEmittedFrameId (r : FrameReassembler ω) (header : PacketHeader) :
    (r.admitted header).lastEmittedFrameId = r.lastEmittedFrameId := by
  unfold admitted lockSession; split_ifs <;> rfl

@[simp] theorem admitted_replayFilter (r : FrameReassembler ω) (header : PacketHeader) :
    (r.admitted header).replayFilter = (r.replayFilter.accept header.sequence).2 := by
  unfold admitted lockSession; split_ifs <;> rfl

@[simp] theorem admitted_sessionLocked (r : FrameReassembler ω) (header : PacketHeader) :
    (r.admitted header).sessionLocked = true := by
  unfold admitted lockSession; split_ifs with h
  · exact h
  · rfl

/-- The sequence number is fresh and the session is the locked one, or none is locked. -/
def Admits (r : FrameReassembler ω) (header : PacketHeader) : Prop :=
  (r.replayFilter.accept header.sequence).1 = true ∧
    (r.sessionLocked = true → header.sessionId = r.expectedSessionId)

instance (r : FrameReassembler ω) (header : PacketHeader) : Decidable (r.Admits header) :=
  inferInstanceAs (Decidable (_ ∧ _))

theorem admitted_expectedSessionId {r : FrameReassembler ω} {header : PacketHeader}
    (h : r.Admits header) : (r.admitted header).expectedSessionId = header.sessionId := by
  unfold admitted lockSession; split_ifs with hl
  · exact (h.2 hl).symm
  · rfl

/-- The packet is one the keyframe gate and the staleness check let through. -/
def Wants (r : FrameReassembler ω) (header : PacketHeader) : Prop :=
  if r.waitingForKeyframe then header.isKeyframe = true else r.isStale header.frameId = false

instance (r : FrameReassembler ω) (header : PacketHeader) : Decidable (r.Wants header) :=
  inferInstanceAs (Decidable
    (if r.waitingForKeyframe then header.isKeyframe = true else r.isStale header.frameId = false))

theorem acceptPacket_of_refused {r : FrameReassembler ω} {header : PacketHeader}
    (hf : (r.replayFilter.accept header.sequence).1 = false) (origin : ω) (payload : Bytes) :
    r.acceptPacket origin header payload = ⟨false, r, []⟩ := by
  simp [acceptPacket, hf, ReplayFilter.accept_snd_of_refused hf]

theorem admits_congr {r r' : FrameReassembler ω} (hfilter : r.replayFilter = r'.replayFilter)
    (hlocked : r.sessionLocked = r'.sessionLocked)
    (hsession : r.sessionLocked = true → r.expectedSessionId = r'.expectedSessionId)
    (header : PacketHeader) : r.Admits header ↔ r'.Admits header := by
  unfold Admits
  rw [hfilter, ← hlocked]
  exact and_congr_right' (forall_congr' fun hl => by rw [hsession hl])

/-- Everything `PushPacket` can do from the replay filter on. -/
theorem acceptPacket_cases (r : FrameReassembler ω) (origin : ω) (header : PacketHeader)
    (payload : Bytes) :
    ((r.replayFilter.accept header.sequence).1 = false ∧
      r.acceptPacket origin header payload = ⟨false, r, []⟩) ∨
    ((r.replayFilter.accept header.sequence).1 = true ∧ r.sessionLocked = true ∧
      header.sessionId ≠ r.expectedSessionId ∧ r.acceptPacket origin header payload =
        ⟨false, { r with replayFilter := (r.replayFilter.accept header.sequence).2 }, []⟩) ∨
    (r.Admits header ∧ ¬ r.Wants header ∧
      r.acceptPacket origin header payload = ⟨false, r.admitted header,
        if r.waitingForKeyframe then [.missingKeyframe header.frameId] else []⟩) ∨
    (r.Admits header ∧ r.Wants header ∧
      r.acceptPacket origin header payload =
        (r.admitted header).storeFragment origin header payload) := by
  cases hf : (r.replayFilter.accept header.sequence).1 with
  | false => exact .inl ⟨rfl, acceptPacket_of_refused hf origin payload⟩
  | true =>
    by_cases hs : r.sessionLocked = true ∧ header.sessionId ≠ r.expectedSessionId
    · refine .inr (.inl ⟨rfl, hs.1, hs.2, ?_⟩)
      simp [acceptPacket, hf, hs.1, hs.2]
    · have ha : r.Admits header := ⟨hf, fun hl => by_contra fun hn => hs ⟨hl, hn⟩⟩
      have hs' : (r.sessionLocked && header.sessionId != r.expectedSessionId) = false := by
        simpa using ha.2
      have hstale : (r.admitted header).isStale = r.isStale := by
        funext; simp [isStale]
      have hstep : r.acceptPacket origin header payload =
          if r.waitingForKeyframe && !header.isKeyframe then
            ⟨false, r.admitted header, [.missingKeyframe header.frameId]⟩
          else if !r.waitingForKeyframe && r.isStale header.frameId then
            ⟨false, r.admitted header, []⟩
          else (r.admitted header).storeFragment origin header payload := by
        rw [← hstale, ← admitted_waitingForKeyframe r header]
        simp only [acceptPacket, hf, Bool.not_true, Bool.false_eq_true, if_false, hs']
        rfl
      right; right
      rw [hstep]
      unfold Wants
      cases hw : r.waitingForKeyframe <;> cases hk : header.isKeyframe <;>
        cases hst : r.isStale header.frameId <;> simp [ha]

theorem acceptPacket_of_foreign {r : FrameReassembler ω} {header : PacketHeader}
    (hf : (r.replayFilter.accept header.sequence).1 = true) (hl : r.sessionLocked = true)
    (hne : header.sessionId ≠ r.expectedSessionId) (origin : ω) (payload : Bytes) :
    r.acceptPacket origin header payload =
      ⟨false, { r with replayFilter := (r.replayFilter.accept header.sequence).2 }, []⟩ := by
  rcases r.acceptPacket_cases origin header payload with
    ⟨hr, -⟩ | ⟨-, -, -, hs⟩ | ⟨ha, -⟩ | ⟨ha, -⟩
  · rw [hf] at hr; cases hr
  · exact hs
  · exact absurd (ha.2 hl) hne
  · exact absurd (ha.2 hl) hne

theorem acceptPacket_of_admits {r : FrameReassembler ω} {header : PacketHeader}
    (h : r.Admits header) (origin : ω) (payload : Bytes) :
    r.acceptPacket origin header payload = if r.Wants header then
      (r.admitted header).storeFragment origin header payload
    else ⟨false, r.admitted header,
      if r.waitingForKeyframe then [.missingKeyframe header.frameId] else []⟩ := by
  rcases r.acceptPacket_cases origin header payload with
    ⟨hr, -⟩ | ⟨-, hl, hne, -⟩ | ⟨-, hw, hs⟩ | ⟨-, hw, hs⟩
  · rw [h.1] at hr; cases hr
  · exact absurd (h.2 hl) hne
  · rw [hs, if_neg hw]
  · rw [hs, if_pos hw]

theorem storeFragment_cases (r : FrameReassembler ω) (origin : ω) (header : PacketHeader)
    (payload : Bytes) {pending : PendingFrame ω}
    (hp : pending = r.pendingWith origin header payload) :
    (pending.isComplete = true ∧ r.storeFragment origin header payload =
      { accepted := true
        state := { r with
          lastEmittedFrameId := pending.frameId
          waitingForKeyframe := false
          pendingFrames :=
            (r.pendingFrames.insert header.frameId pending).eraseUpTo pending.frameId }
        calls := [.frameReady pending.assemble (pending.parts.map (·.origin))] }) ∨
    (pending.isComplete = false ∧ r.storeFragment origin header payload =
      { accepted := true
        state := { r with
          pendingFrames :=
            if 16 < (r.pendingFrames.insert header.frameId pending).size then
              (r.pendingFrames.insert header.frameId pending).eraseFirst
            else r.pendingFrames.insert header.frameId pending }
        calls := [] }) := by
  cases h : pending.isComplete with
  | true =>
    refine .inl ⟨rfl, ?_⟩
    unfold storeFragment
    dsimp only
    rw [← hp, if_pos h]
    rfl
  | false =>
    refine .inr ⟨rfl, ?_⟩
    unfold storeFragment
    dsimp only
    rw [← hp, h]
    rfl

section Alike

variable {r r' : FrameReassembler ω} {header : PacketHeader}

/-- Two reassemblers that differ at most in session and replay window. -/
structure Alike (r r' : FrameReassembler ω) : Prop where
  crypto : r.crypto = r'.crypto
  pendingFrames : r.pendingFrames = r'.pendingFrames
  lastEmittedFrameId : r.lastEmittedFrameId = r'.lastEmittedFrameId
  waitingForKeyframe : r.waitingForKeyframe = r'.waitingForKeyframe

theorem alike_admitted (r : FrameReassembler ω) (header : PacketHeader) :
    (r.admitted header).Alike r :=
  ⟨by simp, by simp, by simp, by simp⟩

theorem Alike.symm (h : r.Alike r') : r'.Alike r :=
  ⟨h.crypto.symm, h.pendingFrames.symm, h.lastEmittedFrameId.symm, h.waitingForKeyframe.symm⟩

theorem Alike.trans {r'' : FrameReassembler ω} (h : r.Alike r') (h' : r'.Alike r'') :
    r.Alike r'' :=
  ⟨h.crypto.trans h'.crypto, h.pendingFrames.trans h'.pendingFrames,
    h.lastEmittedFrameId.trans h'.lastEmittedFrameId,
    h.waitingForKeyframe.trans h'.waitingForKeyframe⟩

theorem Alike.wants_iff (h : r.Alike r') (header : PacketHeader) :
    r.Wants header ↔ r'.Wants header := by
  unfold Wants isStale
  rw [h.waitingForKeyframe, h.lastEmittedFrameId]

theorem Alike.pendingWith_eq (h : r.Alike r') (origin : ω) (header : PacketHeader)
    (payload : Bytes) :
    r.pendingWith origin header payload = r'.pendingWith origin header payload := by
  rw [pendingWith, h.pendingFrames]
  rfl

theorem pendingWith_admitted (r : FrameReassembler ω) (origin : ω) (header : PacketHeader)
    (payload : Bytes) :
    r.pendingWith origin header payload = (r.admitted header).pendingWith origin header payload :=
  ((alike_admitted r header).pendingWith_eq origin header payload).symm

theorem Alike.storeFragment (h : r.Alike r') (origin : ω) (header : PacketHeader)
    (payload : Bytes) :
    (r.storeFragment origin header payload).state.Alike
        (r'.storeFragment origin header payload).state ∧
      (r.storeFragment origin header payload).calls =
        (r'.storeFragment origin header payload).calls := by
  have hsame := h.pendingWith_eq origin header payload
  rcases r.storeFragment_cases origin header payload rfl with ⟨hc, hs⟩ | ⟨hc, hs⟩ <;>
    rcases r'.storeFragment_cases origin header payload rfl with ⟨hc', hs'⟩ | ⟨hc', hs'⟩
  · rw [hs, hs', hsame, h.pendingFrames]
    exact ⟨⟨h.crypto, rfl, rfl, rfl⟩, rfl⟩
  · rw [hsame, hc'] at hc; cases hc
  · rw [hsame, hc'] at hc; cases hc
  · rw [hs, hs', hsame, h.pendingFrames]
    exact ⟨⟨h.crypto, rfl, h.lastEmittedFrameId, h.waitingForKeyframe⟩, rfl⟩

theorem Alike.acceptPacket (h : r.Alike r') (ha : r.Admits header) (ha' : r'.Admits header)
    (origin : ω) (payload : Bytes) :
    (r.acceptPacket origin header payload).state.Alike
        (r'.acceptPacket origin header payload).state ∧
      (r.acceptPacket origin header payload).calls =
        (r'.acceptPacket origin header payload).calls := by
  have hadmitted : (r.admitted header).Alike (r'.admitted header) :=
    ((alike_admitted r header).trans h).trans (alike_admitted r' header).symm
  rw [acceptPacket_of_admits ha, acceptPacket_of_admits ha', h.waitingForKeyframe]
  simp only [h.wants_iff]
  split_ifs
  · exact hadmitted.storeFragment origin header payload
  · exact ⟨hadmitted, rfl⟩
  · exact ⟨hadmitted, rfl⟩

end Alike

theorem find?_storeFragment {r : FrameReassembler ω} {origin : ω} {header : PacketHeader}
    {payload : Bytes} {k : UInt32} {e : PendingFrame ω}
    (h : (r.storeFragment origin header payload).state.pendingFrames.find? k = some e) :
    k = header.frameId ∧ e = r.pendingWith origin header payload ∨
      r.pendingFrames.find? k = some e := by
  have hinsert (he : (r.pendingFrames.insert header.frameId
      (r.pendingWith origin header payload)).find? k = some e) :
      k = header.frameId ∧ e = r.pendingWith origin header payload ∨
        r.pendingFrames.find? k = some e := by
    rw [OrderedMap.find?_insert] at he
    split_ifs at he with hk
    · exact .inl ⟨hk, (Option.some.inj he).symm⟩
    · exact .inr he
  rcases r.storeFragment_cases origin header payload rfl with ⟨-, hs⟩ | ⟨-, hs⟩ <;> rw [hs] at h
  · rw [OrderedMap.find?_eraseUpTo] at h
    split_ifs at h
    exact hinsert h
  · dsimp only at h
    split_ifs at h
    · exact hinsert (OrderedMap.find?_eraseFirst h)
    · exact hinsert h

@[simp] theorem storeFragment_crypto (r : FrameReassembler ω) (origin : ω) (header : PacketHeader)
    (payload : Bytes) : (r.storeFragment origin header payload).state.crypto = r.crypto := by
  rcases r.storeFragment_cases origin header payload rfl with ⟨-, h⟩ | ⟨-, h⟩ <;> rw [h]

@[simp] theorem storeFragment_replayFilter (r : FrameReassembler ω) (origin : ω)
    (header : PacketHeader) (payload : Bytes) :
    (r.storeFragment origin header payload).state.replayFilter = r.replayFilter := by
  rcases r.storeFragment_cases origin header payload rfl with ⟨-, h⟩ | ⟨-, h⟩ <;> rw [h]

@[simp] theorem storeFragment_sessionLocked (r : FrameReassembler ω) (origin : ω)
    (header : PacketHeader) (payload : Bytes) :
    (r.storeFragment origin header payload).state.sessionLocked = r.sessionLocked := by
  rcases r.storeFragment_cases origin header payload rfl with ⟨-, h⟩ | ⟨-, h⟩ <;> rw [h]

@[simp] theorem storeFragment_expectedSessionId (r : FrameReassembler ω) (origin : ω)
    (header : PacketHeader) (payload : Bytes) :
    (r.storeFragment origin header payload).state.expectedSessionId = r.expectedSessionId := by
  rcases r.storeFragment_cases origin header payload rfl with ⟨-, h⟩ | ⟨-, h⟩ <;> rw [h]

theorem acceptPacket_crypto (r : FrameReassembler ω) (origin : ω) (header : PacketHeader)
    (payload : Bytes) : (r.acceptPacket origin header payload).state.crypto = r.crypto := by
  rcases r.acceptPacket_cases origin header payload with
    ⟨-, h⟩ | ⟨-, -, -, h⟩ | ⟨-, -, h⟩ | ⟨-, -, h⟩ <;> rw [h] <;> simp

theorem acceptPacket_replayFilter (r : FrameReassembler ω) (origin : ω) (header : PacketHeader)
    (payload : Bytes) : (r.acceptPacket origin header payload).state.replayFilter =
      (r.replayFilter.accept header.sequence).2 := by
  rcases r.acceptPacket_cases origin header payload with
    ⟨hf, h⟩ | ⟨-, -, -, h⟩ | ⟨-, -, h⟩ | ⟨-, -, h⟩ <;> rw [h]
  · exact (ReplayFilter.accept_snd_of_refused hf).symm
  · exact admitted_replayFilter r header
  · rw [storeFragment_replayFilter, admitted_replayFilter]

theorem pushPacket_of_none {r : FrameReassembler ω} {packetData : Bytes}
    (h : openPacket lib r.crypto packetData = none) (origin : ω) :
    r.pushPacket lib origin packetData = ⟨false, r, []⟩ := by
  rw [pushPacket, h]

theorem pushPacket_of_some {r : FrameReassembler ω} {packetData payload : Bytes}
    {header : PacketHeader} (h : openPacket lib r.crypto packetData = some (header, payload))
    (origin : ω) : r.pushPacket lib origin packetData = r.acceptPacket origin header payload := by
  rw [pushPacket, h]

@[simp] theorem pushPacket_crypto (r : FrameReassembler ω) (origin : ω) (packetData : Bytes) :
    (r.pushPacket lib origin packetData).state.crypto = r.crypto := by
  unfold pushPacket
  split
  · rfl
  · exact acceptPacket_crypto ..

theorem openPacket_header {crypto : Option SessionCrypto} {packetData payload : Bytes}
    {header : PacketHeader} (h : openPacket lib crypto packetData = some (header, payload)) :
    header = PacketHeader.ofBytes packetData := by
  unfold openPacket at h
  split at h
  · cases h
  · next header' hd =>
    have hd' : header' = PacketHeader.ofBytes packetData := by
      unfold deserializeHeader at hd
      dsimp only at hd
      split_ifs at hd
      exact (Option.some.inj hd).symm
    dsimp only at h
    split_ifs at h
    · cases crypto with
      | none => cases h
      | some crypto =>
        obtain ⟨plaintext, -, he⟩ := Option.map_eq_some_iff.mp h
        rw [← (Prod.mk.inj he).1, hd']
    · rw [← (Prod.mk.inj (Option.some.inj h)).1, hd']

theorem pushPacket_session {sessionId : UInt32} {r : FrameReassembler ω}
    (h : r.sessionLocked = true → r.expectedSessionId = sessionId) (origin : ω)
    {packetData : Bytes} (hd : (PacketHeader.ofBytes packetData).sessionId = sessionId)
    (hl : (r.pushPacket lib origin packetData).state.sessionLocked = true) :
    (r.pushPacket lib origin packetData).state.expectedSessionId = sessionId := by
  unfold pushPacket at hl ⊢
  cases ho : openPacket lib r.crypto packetData with
  | none => rw [ho] at hl; exact h hl
  | some opened =>
    obtain ⟨header, payload⟩ := opened
    rw [ho] at hl
    rw [← openPacket_header ho] at hd
    dsimp only at hl ⊢
    rcases r.acceptPacket_cases origin header payload with
      ⟨-, hs⟩ | ⟨-, -, -, hs⟩ | ⟨ha, -, hs⟩ | ⟨ha, -, hs⟩ <;> rw [hs] at hl ⊢
    · exact h hl
    · exact h hl
    · rw [admitted_expectedSessionId ha, hd]
    · rw [storeFragment_expectedSessionId, admitted_expectedSessionId ha, hd]

/-- The numbers the replay filter has accepted after a packet: a refused number changes
nothing, and only a new one is accepted. -/
theorem pushPacket_tracks (lib : Mbedtls) {A : Set ℕ} {r : FrameReassembler ω}
    (h : r.replayFilter.Tracks A) (origin : ω) (packetData : Bytes) :
    ∃ A', (r.pushPacket lib origin packetData).state.replayFilter.Tracks A' ∧ A ⊆ A' ∧
      ((r.pushPacket lib origin packetData).accepted = true →
        (PacketHeader.ofBytes packetData).sequence.toNat ∉ A ∧
        (PacketHeader.ofBytes packetData).sequence.toNat ∈ A') := by
  unfold pushPacket
  split
  · exact ⟨A, h, subset_rfl, by simp⟩
  · next header payload ho =>
    rw [← openPacket_header ho]
    obtain ⟨hiff, hins⟩ := h.accept header.sequence
    rcases r.acceptPacket_cases origin header payload with
      ⟨-, hs⟩ | ⟨hf, -, -, hs⟩ | ⟨ha, -, hs⟩ | ⟨ha, -, hs⟩ <;> rw [hs]
    · exact ⟨A, h, subset_rfl, by simp⟩
    · exact ⟨_, hins hf, Set.subset_insert _ _, by simp⟩
    · exact ⟨_, by simpa using hins ha.1, Set.subset_insert _ _, by simp⟩
    · exact ⟨_, by simpa using hins ha.1, Set.subset_insert _ _,
        fun _ => ⟨(hiff.mp ha.1).1, Set.mem_insert _ _⟩⟩

/-- What holds between packets: each pending frame is under its identifier and incomplete,
and there are at most 16. -/
structure Settled (r : FrameReassembler ω) : Prop where
  size_le : r.pendingFrames.size ≤ 16
  named : ∀ k e, r.pendingFrames.find? k = some e → e.frameId = k
  incomplete : ∀ k e, r.pendingFrames.find? k = some e → e.isComplete = false

theorem settled_of_empty {r : FrameReassembler ω} (h : r.pendingFrames = ∅) : r.Settled := by
  refine ⟨by simp [h], fun k e he => ?_, fun k e he => ?_⟩ <;> simp [h] at he

theorem Settled.congr {r r' : FrameReassembler ω} (h : r.Settled)
    (he : r'.pendingFrames = r.pendingFrames) : r'.Settled :=
  ⟨by rw [he]; exact h.size_le, by rw [he]; exact h.named, by rw [he]; exact h.incomplete⟩

theorem Settled.pendingWith_frameId {r : FrameReassembler ω} (h : r.Settled) (origin : ω)
    (header : PacketHeader) (payload : Bytes) :
    (r.pendingWith origin header payload).frameId = header.frameId := by
  have hadd (e : PendingFrame ω) (i : UInt16) (f : Fragment ω) :
      (e.addFragment i f).frameId = e.frameId := by
    unfold PendingFrame.addFragment; split_ifs <;> rfl
  rw [pendingWith, hadd]
  unfold PendingFrame.start
  split_ifs with h₀
  · rfl
  · cases he : r.pendingFrames.find? header.frameId with
    | none => rw [he] at h₀; exact absurd rfl h₀
    | some e => exact h.named _ e he

theorem Settled.storeFragment {r : FrameReassembler ω} (h : r.Settled) (origin : ω)
    (header : PacketHeader) (payload : Bytes) :
    (r.storeFragment origin header payload).state.Settled := by
  have hname := h.pendingWith_frameId origin header payload
  rcases r.storeFragment_cases origin header payload rfl with ⟨-, hs⟩ | ⟨hc, hs⟩
  · -- the entry of the frame itself is erased with those before it
    have hfind : ∀ k e, (r.storeFragment origin header payload).state.pendingFrames.find? k =
        some e → r.pendingFrames.find? k = some e := fun k e he => by
      refine (find?_storeFragment he).resolve_left fun ⟨hk, _⟩ => ?_
      rw [hs, OrderedMap.find?_eraseUpTo, hname, if_pos (UInt32.le_of_eq hk)] at he
      cases he
    refine ⟨(OrderedMap.size_le_of_subset fun k hk => ?_).trans h.size_le,
      fun k e he => h.named k e (hfind k e he), fun k e he => h.incomplete k e (hfind k e he)⟩
    obtain ⟨e, he⟩ := Option.isSome_iff_exists.mp (OrderedMap.mem_keys_iff.mp hk)
    exact OrderedMap.mem_keys_iff.mpr (by rw [hfind k e he]; rfl)
  · refine ⟨?_, fun k e he => ?_, fun k e he => ?_⟩
    · have hsize := r.pendingFrames.size_insert_le header.frameId
        (r.pendingWith origin header payload)
      have hle := h.size_le
      rw [hs]
      dsimp only
      split_ifs with hlt
      · rw [OrderedMap.size_eraseFirst]; omega
      · omega
    · rcases find?_storeFragment he with ⟨rfl, rfl⟩ | he
      · exact hname
      · exact h.named k e he
    · rcases find?_storeFragment he with ⟨-, rfl⟩ | he
      · exact hc
      · exact h.incomplete k e he

theorem Settled.pushPacket {r : FrameReassembler ω} (h : r.Settled) (origin : ω)
    (packetData : Bytes) : (r.pushPacket lib origin packetData).state.Settled := by
  unfold FrameReassembler.pushPacket
  split
  · exact h
  · next header payload _ =>
    rcases r.acceptPacket_cases origin header payload with
      ⟨-, hs⟩ | ⟨-, -, -, hs⟩ | ⟨-, -, hs⟩ | ⟨-, -, hs⟩ <;> rw [hs]
    · exact h
    · exact h.congr rfl
    · exact h.congr (by simp)
    · exact (h.congr (by simp)).storeFragment origin header payload

end FrameReassembler

end VeyraCam
