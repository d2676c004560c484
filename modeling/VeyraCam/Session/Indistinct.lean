import VeyraCam.Session.VeyraSession

/-! # Sessions that behave alike

Two sessions deliver the same frames to the same packets when their reassemblers
differ at most in a session number that is not locked and their jitter buffers
at most in what is counted.
-/

namespace VeyraCam

namespace FrameReassembler

variable {ω : Type*} {r r' : FrameReassembler ω} {lib : Mbedtls}

/-- Two reassemblers that do the same with every packet. -/
structure Same (r r' : FrameReassembler ω) : Prop extends Alike r r' where
  replayFilter : r.replayFilter = r'.replayFilter
  sessionLocked : r.sessionLocked = r'.sessionLocked
  session : r.sessionLocked = true → r.expectedSessionId = r'.expectedSessionId

theorem Same.admits_iff (h : r.Same r') (header : PacketHeader) :
    r.Admits header ↔ r'.Admits header :=
  admits_congr h.replayFilter h.sessionLocked h.session header

theorem acceptPacket_of_admits_locked {header : PacketHeader} (ha : r.Admits header) (origin : ω)
    (payload : Bytes) :
    (r.acceptPacket origin header payload).state.sessionLocked = true ∧
      (r.acceptPacket origin header payload).state.expectedSessionId = header.sessionId := by
  rw [acceptPacket_of_admits ha]
  by_cases hw : r.Wants header
  · rw [if_pos hw]
    simp [admitted_expectedSessionId ha]
  · rw [if_neg hw]
    simp [admitted_expectedSessionId ha]

theorem Same.acceptPacket (h : r.Same r') (origin : ω) (header : PacketHeader) (payload : Bytes) :
    (r.acceptPacket origin header payload).state.Same
        (r'.acceptPacket origin header payload).state ∧
      (r.acceptPacket origin header payload).calls =
        (r'.acceptPacket origin header payload).calls := by
  by_cases ha : r.Admits header
  · have ha' := (h.admits_iff header).mp ha
    obtain ⟨halike, hcalls⟩ := h.toAlike.acceptPacket ha ha' origin payload
    obtain ⟨hl, hs⟩ := acceptPacket_of_admits_locked ha origin payload
    obtain ⟨hl', hs'⟩ := acceptPacket_of_admits_locked ha' origin payload
    refine ⟨⟨halike, ?_, hl.trans hl'.symm, fun _ => hs.trans hs'.symm⟩, hcalls⟩
    rw [acceptPacket_replayFilter, acceptPacket_replayFilter, h.replayFilter]
  · have ha' := mt (h.admits_iff header).mpr ha
    cases hf : (r.replayFilter.accept header.sequence).1 with
    | false =>
      rw [acceptPacket_of_refused hf, acceptPacket_of_refused (h.replayFilter ▸ hf)]
      exact ⟨h, rfl⟩
    | true =>
      have hforeign : r.sessionLocked = true ∧ header.sessionId ≠ r.expectedSessionId := by
        by_contra hn
        exact ha ⟨hf, fun hl => by_contra fun hne => hn ⟨hl, hne⟩⟩
      obtain ⟨hl, hne⟩ := hforeign
      rw [acceptPacket_of_foreign hf hl hne, acceptPacket_of_foreign (h.replayFilter ▸ hf)
        (h.sessionLocked ▸ hl) (h.session hl ▸ hne)]
      exact ⟨⟨⟨h.crypto, h.pendingFrames, h.lastEmittedFrameId, h.waitingForKeyframe⟩,
        congrArg (fun f => (f.accept header.sequence).2) h.replayFilter, h.sessionLocked,
        h.session⟩, rfl⟩

theorem Same.pushPacket (h : r.Same r') (origin : ω) (packetData : Bytes) :
    (r.pushPacket lib origin packetData).state.Same (r'.pushPacket lib origin packetData).state ∧
      (r.pushPacket lib origin packetData).calls = (r'.pushPacket lib origin packetData).calls := by
  unfold FrameReassembler.pushPacket
  rw [h.crypto]
  split
  · exact ⟨h, rfl⟩
  · exact h.acceptPacket origin _ _

end FrameReassembler

namespace JitterBuffer

variable {b b' : JitterBuffer}

/-- Two buffers with the same frames that do the same with the next ones. -/
structure Same (b b' : JitterBuffer) : Prop where
  config : b.config = b'.config
  queue : b.queue = b'.queue
  currentTargetDelayMs : b.currentTargetDelayMs = b'.currentTargetDelayMs
  waiting : b.waitingForInitialKeyframe = b'.waitingForInitialKeyframe

theorem Same.pushFrame (h : b.Same b') (frame : VideoFrame) (now : ℤ) :
    (b.pushFrame frame now).1.Same (b'.pushFrame frame now).1 ∧
      (b.pushFrame frame now).2 = (b'.pushFrame frame now).2 := by
  have hqueue : b.queueWith frame now = b'.queueWith frame now := by
    rw [queueWith, h.config, h.queue]
    rfl
  unfold JitterBuffer.pushFrame
  rw [h.waiting]
  split_ifs
  · exact ⟨h, rfl⟩
  · exact ⟨⟨h.config, hqueue, h.currentTargetDelayMs, rfl⟩, rfl⟩

theorem Same.isDue_eq (h : b.Same b') (queue : List BufferedFrame) (now : ℤ) :
    b.isDue queue now = b'.isDue queue now := by
  unfold isDue
  rw [h.currentTargetDelayMs, h.config]

theorem Same.popNextFrame (h : b.Same b') (now : ℤ) :
    (b.popNextFrame now).1.Same (b'.popNextFrame now).1 ∧
      (b.popNextFrame now).2 = (b'.popNextFrame now).2 := by
  unfold JitterBuffer.popNextFrame
  rw [h.queue]
  split
  · exact ⟨h, rfl⟩
  · rw [h.isDue_eq]
    split_ifs
    · exact ⟨⟨h.config, rfl, h.currentTargetDelayMs, h.waiting⟩, rfl⟩
    · exact ⟨h, rfl⟩

end JitterBuffer

namespace VeyraSession

variable {s t : VeyraSession} {lib : Mbedtls}

/-- Two running sessions that do the same with every packet. -/
structure Same (s t : VeyraSession) : Prop where
  state : s.state = t.state
  transports : s.transports = t.transports
  crashed : s.crashed = t.crashed
  reassembler : s.reassembler.Same t.reassembler
  jitterBuffer : s.jitterBuffer.Same t.jitterBuffer

theorem Same.onCallback (h : s.Same t) (pushedAt poppedAt : ℤ) (call : Callback Unit) :
    (s.onCallback pushedAt poppedAt call).1.Same (t.onCallback pushedAt poppedAt call).1 ∧
      (s.onCallback pushedAt poppedAt call).2 = (t.onCallback pushedAt poppedAt call).2 := by
  cases call with
  | missingKeyframe frameId => exact ⟨h, rfl⟩
  | frameReady frame origins =>
    obtain ⟨hpush, hwants⟩ := h.jitterBuffer.pushFrame frame pushedAt
    obtain ⟨hpop, hready⟩ := hpush.popNextFrame poppedAt
    refine ⟨⟨h.state, h.transports, h.crashed, h.reassembler, hpop⟩, ?_⟩
    unfold VeyraSession.onCallback onAssembledFrameReady
    dsimp only
    rw [hwants, hready, h.state]

theorem Same.onPacket (h : s.Same t) (data : Bytes) (pushedAt poppedAt : ℤ) :
    (s.onPacket lib data pushedAt poppedAt).1.Same (t.onPacket lib data pushedAt poppedAt).1 ∧
      (s.onPacket lib data pushedAt poppedAt).2 = (t.onPacket lib data pushedAt poppedAt).2 := by
  obtain ⟨hstate, hcalls⟩ := @FrameReassembler.Same.pushPacket _ _ _ lib h.reassembler () data
  unfold VeyraSession.onPacket
  dsimp only
  rw [hcalls]
  apply Machine.exec_related (R := Same) (Q := Eq)
  · rintro s t call _ hst rfl
    exact hst.onCallback pushedAt poppedAt call
  · exact ⟨h.state, h.transports, h.crashed, hstate, h.jitterBuffer⟩
  · exact List.forall₂_refl _

def IsTraffic : SessionEvent → Prop
  | .packet _ _ _ _ | .registerTransport _ => True
  | _ => False

theorem Same.step (h : s.Same t) {e : SessionEvent} (he : IsTraffic e) :
    (s.step lib e).1.Same (t.step lib e).1 ∧ (s.step lib e).2 = (t.step lib e).2 := by
  unfold VeyraSession.step
  rw [h.crashed]
  split_ifs
  · exact ⟨h, rfl⟩
  cases e with
  | packet transport data pushedAt poppedAt =>
    dsimp only
    rw [h.transports]
    split_ifs
    · exact h.onPacket data pushedAt poppedAt
    · exact ⟨h, rfl⟩
  | registerTransport transport =>
    have htransports := congrArg (transport.toList ++ ·) h.transports
    exact ⟨⟨h.state, htransports, rfl, h.reassembler, h.jitterBuffer⟩, rfl⟩
  | startSession | stopSession | pauseSession | resumeSession | setCrypto => cases he

theorem Same.exec (h : s.Same t) {events : List SessionEvent} (he : ∀ e ∈ events, IsTraffic e) :
    (Machine.exec (VeyraSession.step lib) s events).2 =
      (Machine.exec (VeyraSession.step lib) t events).2 := by
  have hq : List.Forall₂ (fun e e' => e = e' ∧ IsTraffic e) events events :=
    List.forall₂_same.mpr fun e hm => ⟨rfl, he e hm⟩
  refine (Machine.exec_related (R := Same) ?_ h hq).2
  rintro s t e _ hst ⟨rfl, htraffic⟩
  exact hst.step htraffic

end VeyraSession

end VeyraCam
