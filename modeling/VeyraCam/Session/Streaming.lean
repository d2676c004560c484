import VeyraCam.Session.VeyraSession

/-! # Delivery while streaming

Neither the packet callback nor `OnAssembledFrameReady` reads the state, so a
frame is delivered in whatever state the packet that brings it about arrives in.
-/

namespace VeyraCam.VeyraSession

variable {lib : Mbedtls} {s : VeyraSession}

def WhileStreaming : SessionOutput → Prop
  | .frameReceived _ during => during = .streaming
  | _ => True

instance : DecidablePred WhileStreaming
  | .frameReceived _ during => inferInstanceAs (Decidable (during = .streaming))
  | .stateChanged _ _ | .requestIdr => isTrue trivial

/-- The packet completes a frame, and with it the jitter buffer gives one out. -/
def Delivers (lib : Mbedtls) (s : VeyraSession) (data : Bytes) (pushedAt poppedAt : ℤ) : Prop :=
  ∃ opened ∈ FrameReassembler.openPacket lib s.reassembler.crypto data,
    s.reassembler.Admits opened.1 ∧ s.reassembler.Wants opened.1 ∧
    (s.reassembler.pendingWith () opened.1 opened.2).isComplete = true ∧
    s.jitterBuffer.Releases (s.reassembler.pendingWith () opened.1 opened.2).assemble
      pushedAt poppedAt

instance (s : VeyraSession) (data : Bytes) (pushedAt poppedAt : ℤ) :
    Decidable (s.Delivers lib data pushedAt poppedAt) :=
  inferInstanceAs (Decidable (∃ opened ∈ FrameReassembler.openPacket lib s.reassembler.crypto data,
    _))

/-- A packet that delivers a frame arrives while streaming. -/
def DeliversWhileStreaming (lib : Mbedtls) (s : VeyraSession) : SessionEvent → Prop
  | .packet transport data pushedAt poppedAt =>
    s.crashed = false → transport ∈ s.transports → s.Delivers lib data pushedAt poppedAt →
      s.state = .streaming
  | _ => True

instance (s : VeyraSession) : DecidablePred (s.DeliversWhileStreaming lib)
  | .packet _ _ _ _ => inferInstanceAs (Decidable (_ → _))
  | .startSession _ | .stopSession | .pauseSession | .resumeSession | .setCrypto _
  | .registerTransport _ => isTrue trivial

theorem forall_whileStreaming_of_frames {outputs : List SessionOutput}
    (h : frames outputs = []) : ∀ output ∈ outputs, WhileStreaming output := by
  intro output houtput
  cases output with
  | frameReceived frame during =>
    have hframe : frame ∈ frames outputs := mem_frames_iff.mpr ⟨during, houtput⟩
    rw [h] at hframe
    cases hframe
  | stateChanged | requestIdr => trivial

theorem forall_whileStreaming_onAssembledFrameReady_iff (h : s.jitterBuffer.Orderly)
    (frame : VideoFrame) (pushedAt poppedAt : ℤ) :
    (∀ output ∈ (s.onAssembledFrameReady frame pushedAt poppedAt).2, WhileStreaming output) ↔
      (s.jitterBuffer.Releases frame pushedAt poppedAt → s.state = .streaming) := by
  rw [← h.isSome_popNextFrame_iff]
  unfold onAssembledFrameReady
  dsimp only
  have hidr (b : Bool) : ∀ output ∈ (if b then [SessionOutput.requestIdr] else []),
      WhileStreaming output := by
    cases b <;> simp [WhileStreaming]
  rw [List.forall_mem_append, and_iff_right (hidr _)]
  cases ((s.jitterBuffer.pushFrame frame pushedAt).1.popNextFrame poppedAt).2 with
  | none => simp
  | some ready => simp [WhileStreaming]

theorem forall_whileStreaming_onPacket_iff (h : s.jitterBuffer.Orderly) (data : Bytes)
    (pushedAt poppedAt : ℤ) :
    (∀ output ∈ (s.onPacket lib data pushedAt poppedAt).2, WhileStreaming output) ↔
      (s.Delivers lib data pushedAt poppedAt → s.state = .streaming) := by
  rcases s.onPacket_cases lib data pushedAt poppedAt with
    ⟨header, payload, ho, ha, hw, hc, hs⟩ | ⟨hc, -, houtputs⟩
  · have hdelivers : s.Delivers lib data pushedAt poppedAt ↔
        s.jitterBuffer.Releases (s.reassembler.pendingWith () header payload).assemble
          pushedAt poppedAt := by
      constructor
      · rintro ⟨opened, ho', -, -, -, hr⟩
        obtain rfl := Option.some.inj (ho.symm.trans ho')
        exact hr
      · exact fun hr => ⟨(header, payload), ho, ha, hw, hc, hr⟩
    rw [hs, hdelivers]
    exact forall_whileStreaming_onAssembledFrameReady_iff (by exact h) _ _ _
  · refine iff_of_true (fun output houtput => ?_) ?_
    · rw [houtputs output houtput]
      trivial
    · rintro ⟨opened, ho, ha, hw, hcomplete, -⟩
      exact absurd ⟨opened, ho, ha, hw, hcomplete⟩ hc

theorem forall_whileStreaming_step_iff (h : s.jitterBuffer.Orderly) (e : SessionEvent) :
    (∀ output ∈ (s.step lib e).2, WhileStreaming output) ↔ s.DeliversWhileStreaming lib e := by
  cases e with
  | packet transport data pushedAt poppedAt =>
    unfold step DeliversWhileStreaming
    dsimp only
    split_ifs with hcrashed htransport
    · simp [hcrashed]
    · simp [hcrashed, htransport, forall_whileStreaming_onPacket_iff h]
    · simp [htransport]
  | startSession | stopSession | pauseSession | resumeSession | setCrypto | registerTransport =>
    refine iff_of_true (forall_whileStreaming_of_frames ?_) trivial
    exact frames_step_of_lifecycle rfl

theorem orderly_step (h : s.jitterBuffer.Orderly) (e : SessionEvent) :
    (s.step lib e).1.jitterBuffer.Orderly := by
  refine media_step (P := fun _ b => b.Orderly) (fun _ _ _ h => h) (fun _ b _ => b.orderly_flush)
    (fun s data pushedAt poppedAt h => ?_) h e
  rcases s.onPacket_cases lib data pushedAt poppedAt with ⟨_, _, -, -, -, -, hs⟩ | ⟨-, hs, -⟩ <;>
    rw [hs]
  · exact (h.pushFrame _ pushedAt).popNextFrame poppedAt
  · exact h

/-- In every run from a new session, frames are only delivered while streaming exactly when
`state_` is `STREAMING` before each packet that opens, completes a frame that is wanted, and lets
the jitter buffer release its oldest. -/
theorem whileStreaming_iff (lib : Mbedtls) (events : List SessionEvent) :
    (∀ output ∈ (Machine.exec (step lib) {} events).2, WhileStreaming output) ↔
      Machine.Guarded (step lib) (DeliversWhileStreaming lib) {} events := by
  have hinit : ({} : VeyraSession).jitterBuffer.Orderly :=
    ⟨List.Pairwise.nil, Nat.zero_le _, fun _ => rfl⟩
  exact Machine.forall_outputs_iff_guarded (I := fun s => s.jitterBuffer.Orderly)
    (Q := fun _ => True) (fun _ e h _ => orderly_step h e)
    (fun _ e h _ => forall_whileStreaming_step_iff h e) hinit fun _ _ => trivial

set_option maxRecDepth 100000 in
/-- A keyframe is delivered after `StartSession` has refused to stream. -/
theorem not_whileStreaming_refused :
    ¬ ∀ output ∈ (Machine.exec (step .sample) {}
      [.registerTransport (some 0), .startSession { enableEncryption := true },
        .packet 0 (samplePacket none) 0 20000000]).2, WhileStreaming output := by decide

end VeyraCam.VeyraSession
