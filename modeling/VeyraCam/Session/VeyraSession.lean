import VeyraCam.Library.Machine
import VeyraCam.Packet.Holes
import VeyraCam.Session.JitterBuffer

/-! # The session

`VeyraSession`: its lifecycle, and the path of a packet from a transport through
the reassembler and the jitter buffer to the frame callback. The callback that
`RegisterTransport` installs stays installed through all changes of state.
-/

namespace VeyraCam

inductive SessionState where
  | idle
  | pairing
  | connecting
  | streaming
  | paused
  | disconnected
  | errorState
  deriving DecidableEq, Repr

structure StreamConfig where
  enableEncryption : Bool := false
  deriving DecidableEq, Repr

/-- `VeyraSession`. Transports are numbered, and only those with the callback are kept. -/
structure VeyraSession where
  state : SessionState := .idle
  config : StreamConfig := {}
  crypto : Option SessionCrypto := some {}
  reassembler : FrameReassembler Unit := {}
  jitterBuffer : JitterBuffer := {}
  transports : List ℕ := []
  /-- A null `crypto_` has been dereferenced. -/
  crashed : Bool := false
  deriving DecidableEq

inductive SessionEvent where
  | startSession (config : StreamConfig)
  | stopSession
  | pauseSession
  | resumeSession
  | setCrypto (crypto : Option SessionCrypto)
  | registerTransport (transport : Option ℕ)
  /-- A packet arrives at a transport, with the clock readings of `PushFrame` and
  `PopNextFrame`. -/
  | packet (transport : ℕ) (data : Bytes) (pushedAt poppedAt : ℤ)
  deriving DecidableEq

inductive SessionOutput where
  /-- `stateCallback_`. -/
  | stateChanged (state : SessionState) (message : Text)
  /-- `frameCallback_`, with the state it is called in. -/
  | frameReceived (frame : VideoFrame) (during : SessionState)
  | requestIdr
  deriving DecidableEq

def SessionEvent.isPacket : SessionEvent → Bool
  | .packet _ _ _ _ => true
  | _ => false

namespace VeyraSession

def setState (s : VeyraSession) (state : SessionState) (message : String) :
    VeyraSession × List SessionOutput :=
  ({ s with state }, [.stateChanged state message.toList])

/-- `VeyraSession::StartSession`, with its result. -/
def startSession (s : VeyraSession) (config : StreamConfig) :
    VeyraSession × List SessionOutput × Bool :=
  let (s, connecting) := { s with config }.setState .connecting "Connecting transports..."
  let stream (s : VeyraSession) : VeyraSession × List SessionOutput × Bool :=
    let (s, streaming) := s.setState .streaming "Session active and streaming"
    (s, connecting ++ streaming, true)
  if config.enableEncryption then
    match s.crypto with
    | none => ({ s with crashed := true }, connecting, false)
    | some crypto =>
      if !crypto.hasKeys then
        let (s, refused) := s.setState .errorState
          "Encryption requested but no paired session key; run pairing first"
        (s, connecting ++ refused, false)
      else stream { s with reassembler := s.reassembler.setCrypto s.crypto }
  else stream s

def setCrypto (s : VeyraSession) (crypto : Option SessionCrypto) : VeyraSession :=
  if crypto.isSome && s.config.enableEncryption && s.state ≠ .idle then
    { s with crypto, reassembler := s.reassembler.setCrypto crypto }
  else { s with crypto }

def stopSession (s : VeyraSession) : VeyraSession × List SessionOutput :=
  if s.state = .idle ∨ s.state = .disconnected then (s, [])
  else
    let (s, outputs) := s.setState .disconnected "Session stopped"
    ({ s with jitterBuffer := s.jitterBuffer.flush, reassembler := s.reassembler.reset }, outputs)

def pauseSession (s : VeyraSession) : VeyraSession × List SessionOutput :=
  if s.state = .streaming then s.setState .paused "Session paused" else (s, [])

def resumeSession (s : VeyraSession) : VeyraSession × List SessionOutput :=
  if s.state = .paused then
    let (s, outputs) := s.setState .streaming "Session resumed"
    (s, outputs ++ [.requestIdr])
  else (s, [])

def onAssembledFrameReady (s : VeyraSession) (frame : VideoFrame) (pushedAt poppedAt : ℤ) :
    VeyraSession × List SessionOutput :=
  let (jitterBuffer, wantsKeyframe) := s.jitterBuffer.pushFrame frame pushedAt
  let (jitterBuffer, readyFrame) := jitterBuffer.popNextFrame poppedAt
  ({ s with jitterBuffer },
    (if wantsKeyframe then [.requestIdr] else []) ++
      readyFrame.toList.map (.frameReceived · s.state))

def onCallback (pushedAt poppedAt : ℤ) (s : VeyraSession) :
    Callback Unit → VeyraSession × List SessionOutput
  | .frameReady frame _ => s.onAssembledFrameReady frame pushedAt poppedAt
  | .missingKeyframe _ => (s, [.requestIdr])

/-- The callback that `RegisterTransport` installs. -/
def onPacket (lib : Mbedtls) (s : VeyraSession) (data : Bytes) (pushedAt poppedAt : ℤ) :
    VeyraSession × List SessionOutput :=
  let result := s.reassembler.pushPacket lib () data
  Machine.exec (onCallback pushedAt poppedAt) { s with reassembler := result.state } result.calls

/-- One event, until the process has crashed. -/
def step (lib : Mbedtls) (s : VeyraSession) (e : SessionEvent) :
    VeyraSession × List SessionOutput :=
  if s.crashed then (s, [])
  else match e with
    | .startSession config =>
      let (s, outputs, _) := s.startSession config
      (s, outputs)
    | .stopSession => s.stopSession
    | .pauseSession => s.pauseSession
    | .resumeSession => s.resumeSession
    | .setCrypto crypto => (s.setCrypto crypto, [])
    | .registerTransport transport =>
      ({ s with transports := transport.toList ++ s.transports }, [])
    | .packet transport data pushedAt poppedAt =>
      if transport ∈ s.transports then s.onPacket lib data pushedAt poppedAt else (s, [])

def frames (outputs : List SessionOutput) : List VideoFrame :=
  outputs.filterMap fun
    | .frameReceived frame _ => some frame
    | _ => none

variable {lib : Mbedtls} {s : VeyraSession}

theorem frames_append (outputs outputs' : List SessionOutput) :
    frames (outputs ++ outputs') = frames outputs ++ frames outputs' := List.filterMap_append

theorem mem_frames_iff {outputs : List SessionOutput} {frame : VideoFrame} :
    frame ∈ frames outputs ↔ ∃ during, .frameReceived frame during ∈ outputs := by
  unfold frames
  rw [List.mem_filterMap]
  constructor
  · rintro ⟨output, houtput, hframe⟩
    cases output with
    | frameReceived frame' during =>
      obtain rfl := Option.some.inj hframe
      exact ⟨during, houtput⟩
    | stateChanged | requestIdr => cases hframe
  · rintro ⟨during, houtput⟩
    exact ⟨_, houtput, rfl⟩

theorem frames_step_of_lifecycle {e : SessionEvent} (he : e.isPacket = false) :
    frames (s.step lib e).2 = [] := by
  unfold step
  split_ifs
  · rfl
  cases e with
  | packet => cases he
  | startSession config =>
    unfold startSession setState
    dsimp only
    split_ifs
    · split
      · rfl
      · split_ifs <;> rfl
    · rfl
  | stopSession =>
    unfold stopSession setState
    dsimp only
    split_ifs <;> rfl
  | pauseSession =>
    unfold pauseSession setState
    dsimp only
    split_ifs <;> rfl
  | resumeSession =>
    unfold resumeSession setState
    dsimp only
    split_ifs <;> rfl
  | setCrypto | registerTransport => rfl

theorem exec_onCallback_of_missing {calls : List (Callback Unit)}
    (h : ∀ call ∈ calls, ∃ frameId, call = .missingKeyframe frameId) (pushedAt poppedAt : ℤ)
    (s : VeyraSession) :
    Machine.exec (onCallback pushedAt poppedAt) s calls =
      (s, calls.map fun _ => .requestIdr) := by
  induction calls with
  | nil => rfl
  | cons call calls ih =>
    obtain ⟨⟨frameId, rfl⟩, hrest⟩ := List.forall_mem_cons.mp h
    rw [Machine.exec_cons, onCallback, ih hrest]
    rfl

/-- Everything a packet can do: complete a frame, or at most ask for a keyframe. -/
theorem onPacket_cases (lib : Mbedtls) (s : VeyraSession) (data : Bytes) (pushedAt poppedAt : ℤ) :
    (∃ header payload,
      FrameReassembler.openPacket lib s.reassembler.crypto data = some (header, payload) ∧
      s.reassembler.Admits header ∧ s.reassembler.Wants header ∧
      (s.reassembler.pendingWith () header payload).isComplete = true ∧
      s.onPacket lib data pushedAt poppedAt =
        { s with reassembler := (s.reassembler.pushPacket lib () data).state
          }.onAssembledFrameReady (s.reassembler.pendingWith () header payload).assemble
            pushedAt poppedAt) ∨
    ¬ s.reassembler.Completes lib () data ∧
      (s.onPacket lib data pushedAt poppedAt).1 =
        { s with reassembler := (s.reassembler.pushPacket lib () data).state } ∧
      ∀ output ∈ (s.onPacket lib data pushedAt poppedAt).2, output = .requestIdr := by
  by_cases hc : s.reassembler.Completes lib () data
  · obtain ⟨header, payload, ho, ha, hw, hcomplete, hcalls, -⟩ := hc.pushPacket_eq
    refine .inl ⟨header, payload, ho, ha, hw, hcomplete, ?_⟩
    unfold onPacket
    dsimp only
    rw [hcalls, Machine.exec_cons, Machine.exec_nil, List.append_nil]
    rfl
  · have hmissing : ∀ call ∈ (s.reassembler.pushPacket lib () data).calls,
        ∃ frameId, call = .missingKeyframe frameId := by
      intro call hcall
      cases call with
      | frameReady frame origins =>
        exact absurd (FrameReassembler.completes_of_frameReady hcall) hc
      | missingKeyframe frameId => exact ⟨frameId, rfl⟩
    unfold onPacket
    dsimp only
    rw [exec_onCallback_of_missing hmissing]
    refine .inr ⟨hc, rfl, fun output houtput => ?_⟩
    obtain ⟨_, -, rfl⟩ := List.mem_map.mp houtput
    rfl

/-- What the lifecycle does to the media path: nothing, a new key, or a flush with a reset. -/
theorem step_lifecycle_cases (lib : Mbedtls) (s : VeyraSession) {e : SessionEvent}
    (he : e.isPacket = false) :
    ((s.step lib e).1.jitterBuffer = s.jitterBuffer ∧
      ((s.step lib e).1.reassembler = s.reassembler ∨
        ∃ crypto, (s.step lib e).1.reassembler = s.reassembler.setCrypto crypto)) ∨
    (s.step lib e).1.jitterBuffer = s.jitterBuffer.flush ∧
      (s.step lib e).1.reassembler = s.reassembler.reset := by
  unfold step
  split_ifs
  · exact .inl ⟨rfl, .inl rfl⟩
  cases e with
  | packet => cases he
  | startSession config =>
    left
    unfold startSession setState
    dsimp only
    split_ifs
    · split
      · exact ⟨rfl, .inl rfl⟩
      · split_ifs
        · exact ⟨rfl, .inl rfl⟩
        · exact ⟨rfl, .inr ⟨_, rfl⟩⟩
    · exact ⟨rfl, .inl rfl⟩
  | stopSession =>
    unfold stopSession setState
    dsimp only
    split_ifs
    · exact .inl ⟨rfl, .inl rfl⟩
    · exact .inr ⟨rfl, rfl⟩
  | pauseSession =>
    left
    unfold pauseSession setState
    dsimp only
    split_ifs <;> exact ⟨rfl, .inl rfl⟩
  | resumeSession =>
    left
    unfold resumeSession setState
    dsimp only
    split_ifs <;> exact ⟨rfl, .inl rfl⟩
  | setCrypto crypto =>
    left
    unfold setCrypto
    dsimp only
    split_ifs
    · exact ⟨rfl, .inr ⟨_, rfl⟩⟩
    · exact ⟨rfl, .inl rfl⟩
  | registerTransport => exact .inl ⟨rfl, .inl rfl⟩

/-- A property of the media path that keys, stops and packets keep is kept by every step. -/
theorem media_step {P : FrameReassembler Unit → JitterBuffer → Prop}
    (hcrypto : ∀ r b crypto, P r b → P (r.setCrypto crypto) b)
    (hstop : ∀ r b, P r b → P r.reset b.flush)
    (hpacket : ∀ (s : VeyraSession) data pushedAt poppedAt, P s.reassembler s.jitterBuffer →
      P (s.onPacket lib data pushedAt poppedAt).1.reassembler
        (s.onPacket lib data pushedAt poppedAt).1.jitterBuffer)
    (h : P s.reassembler s.jitterBuffer) (e : SessionEvent) :
    P (s.step lib e).1.reassembler (s.step lib e).1.jitterBuffer := by
  cases he : e.isPacket with
  | false =>
    rcases s.step_lifecycle_cases lib he with ⟨hb, hr | ⟨crypto, hr⟩⟩ | ⟨hb, hr⟩ <;>
      rw [hb, hr]
    · exact h
    · exact hcrypto _ _ crypto h
    · exact hstop _ _ h
  | true =>
    cases e with
    | packet transport data pushedAt poppedAt =>
      unfold step
      dsimp only
      split_ifs
      · exact h
      · exact hpacket s data pushedAt poppedAt h
      · exact h
    | startSession | stopSession | pauseSession | resumeSession | setCrypto
    | registerTransport => cases he

theorem frames_onAssembledFrameReady (s : VeyraSession) (frame : VideoFrame)
    (pushedAt poppedAt : ℤ) :
    frames (s.onAssembledFrameReady frame pushedAt poppedAt).2 =
      ((s.jitterBuffer.pushFrame frame pushedAt).1.popNextFrame poppedAt).2.toList := by
  unfold onAssembledFrameReady
  dsimp only
  rw [frames_append]
  cases ((s.jitterBuffer.pushFrame frame pushedAt).1.popNextFrame poppedAt).2 <;>
    split_ifs <;> rfl

end VeyraSession

end VeyraCam
