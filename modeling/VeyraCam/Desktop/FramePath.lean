import VeyraCam.Desktop.ServiceManager
import VeyraCam.Packet.Provenance
import VeyraCam.Session.JitterBuffer

/-! # The frame path of the desktop

`ServiceManager` decodes a frame and puts it into a jitter buffer as well, which
may ask for a keyframe and out of which nothing takes frames. It never asks: the
reassembler has waited for a keyframe before. So the buffer fills up with ten
frames and counts the others as dropped, all of which have been decoded.
-/

namespace VeyraCam

namespace FrameReassembler

variable {ω : Type*} {lib : Mbedtls} {r : FrameReassembler ω} {header : PacketHeader}
  {origin : ω} {payload : Bytes}

def KeyframesOnly (r : FrameReassembler ω) : Prop :=
  r.waitingForKeyframe = true → ∀ k e, r.pendingFrames.find? k = some e → e.isKeyframe = true

theorem KeyframesOnly.congr {r' : FrameReassembler ω} (h : r.KeyframesOnly)
    (hpending : r'.pendingFrames = r.pendingFrames)
    (hwaiting : r'.waitingForKeyframe = r.waitingForKeyframe) : r'.KeyframesOnly := by
  unfold KeyframesOnly
  rw [hpending, hwaiting]
  exact h

theorem KeyframesOnly.pendingWith (h : r.KeyframesOnly) (hw : r.waitingForKeyframe = true)
    (hwants : r.Wants header) : (r.pendingWith origin header payload).isKeyframe = true := by
  have hadd (e : PendingFrame ω) (i : UInt16) (f : Fragment ω) :
      (e.addFragment i f).isKeyframe = e.isKeyframe := by
    unfold PendingFrame.addFragment
    split_ifs <;> rfl
  have hkey : header.isKeyframe = true := by
    unfold Wants at hwants
    rwa [if_pos hw] at hwants
  unfold FrameReassembler.pendingWith
  dsimp only
  rw [hadd, PendingFrame.start]
  split_ifs with h₀
  · exact hkey
  · cases he : r.pendingFrames.find? header.frameId with
    | none =>
      rw [he] at h₀
      exact absurd rfl h₀
    | some e => exact h hw _ e he

variable (lib) in
theorem KeyframesOnly.pushPacket (h : r.KeyframesOnly) (origin : ω) (packetData : Bytes) :
    (r.pushPacket lib origin packetData).state.KeyframesOnly := by
  unfold FrameReassembler.pushPacket
  split
  · exact h
  · next header payload _ =>
    rcases r.acceptPacket_cases origin header payload with
      ⟨-, hs⟩ | ⟨-, -, -, hs⟩ | ⟨-, -, hs⟩ | ⟨-, hw, hs⟩ <;> rw [hs]
    · exact h
    · exact h.congr rfl rfl
    · exact h.congr (by simp) (by simp)
    · have hadmitted : (r.admitted header).KeyframesOnly := h.congr (by simp) (by simp)
      have hwants := ((alike_admitted r header).wants_iff header).mpr hw
      rcases (r.admitted header).storeFragment_cases origin header payload rfl with
        ⟨-, hres⟩ | ⟨-, hres⟩
      · rw [hres]
        intro hwaiting
        cases hwaiting
      · intro hwaiting k e he
        have hwaiting : (r.admitted header).waitingForKeyframe = true := by
          rw [hres] at hwaiting
          exact hwaiting
        rcases find?_storeFragment he with ⟨-, rfl⟩ | he
        · exact hadmitted.pendingWith hwaiting hwants
        · exact hadmitted hwaiting k e he

variable (lib) in
/-- What a packet makes the reassembler call: nothing, or a frame, which is a keyframe if it waited
for one. -/
theorem KeyframesOnly.calls (h : r.KeyframesOnly) (origin : ω) (packetData : Bytes) :
    ((∀ frame origins, .frameReady frame origins ∉ (r.pushPacket lib origin packetData).calls) ∧
      (r.pushPacket lib origin packetData).state.waitingForKeyframe = r.waitingForKeyframe) ∨
    ∃ frame origins, (r.pushPacket lib origin packetData).calls = [.frameReady frame origins] ∧
      (r.waitingForKeyframe = true → frame.isKeyframe = true) := by
  by_cases hc : r.Completes lib origin packetData
  · obtain ⟨header, payload, -, -, hw, -, hcalls, -⟩ := hc.pushPacket_eq
    exact .inr ⟨_, _, hcalls, fun hwaiting => h.pendingWith hwaiting hw⟩
  · obtain ⟨hnone, hwaiting, -⟩ := pushPacket_of_not_completes hc
    exact .inl ⟨hnone, hwaiting⟩

end FrameReassembler

namespace JitterBuffer

theorem length_dropStale_eq {n : ℕ} (hn : 0 < n) (queue : List BufferedFrame) :
    (dropStale n queue).length = min queue.length (n - 1) := by
  induction queue with
  | nil => simp [dropStale]
  | cons oldest queue ih =>
    unfold dropStale
    split_ifs with h
    · rw [ih, List.length_cons]
      omega
    · rw [List.length_cons]
      omega

end JitterBuffer

structure BufferedManager where
  manager : ServiceManager := {}
  jitterBuffer : JitterBuffer := {}

namespace BufferedManager

variable (env : Platform)

/-- The two callbacks given to the reassembler, with the clock reading of a push. -/
def onCallback (now : ℤ) (s : BufferedManager) :
    Callback MediaOrigin → BufferedManager × List Output
  | .frameReady frame origins =>
    let (jitterBuffer, wantsKeyframe) := s.jitterBuffer.pushFrame frame now
    ({ s with jitterBuffer },
      s.manager.onCallback (.frameReady frame origins) ++
        if wantsKeyframe then s.manager.onCallback (.missingKeyframe 0) else [])
  | .missingKeyframe frameId => (s, s.manager.onCallback (.missingKeyframe frameId))

/-- `ServiceManager::OnUdpPacketReceived`, behind the UDP server's source filter. -/
def onDatagram (s : BufferedManager) (source : UInt32) (data : Bytes) (now : ℤ) :
    BufferedManager × List Output :=
  if s.manager.udpServer.passes source data then
    let result := s.manager.reassembler.pushPacket env.lib
      ⟨source, data, s.manager.reassembler.crypto⟩ data
    let (s, outputs) := Machine.exec (onCallback now) s result.calls
    ({ s with manager := { s.manager with reassembler := result.state } }, outputs)
  else (s, [])

/-- One event, at a time that only a push reads. -/
def step (s : BufferedManager) : Event × ℤ → BufferedManager × List Output
  | (.datagram source data, now) => s.onDatagram env source data now
  | (e, _) =>
    let (manager, outputs) := s.manager.step env e
    ({ s with manager }, outputs)

def decoded (outputs : List Output) : List VideoFrame :=
  outputs.filterMap fun
    | .decodeFrame frame _ _ => some frame
    | _ => none

/-- The buffer has waited for a keyframe at least as short as the reassembler, and holds the last
frames it was given, up to as many as it has room for. -/
structure Beside (s : BufferedManager) (decodings : ℕ) : Prop where
  keyframesOnly : s.manager.reassembler.KeyframesOnly
  waiting : s.jitterBuffer.waitingForInitialKeyframe = true →
    s.manager.reassembler.waitingForKeyframe = true
  config : s.jitterBuffer.config = {}
  length_queue : s.jitterBuffer.queue.length = min decodings 10
  droppedFrames : s.jitterBuffer.droppedFrames = decodings - 10

variable {env} {s : BufferedManager} {n : ℕ}

theorem decoded_append (outputs outputs' : List Output) :
    decoded (outputs ++ outputs') = decoded outputs ++ decoded outputs' := List.filterMap_append

theorem decoded_eq_nil {outputs : List Output}
    (h : ∀ frame origins during, .decodeFrame frame origins during ∉ outputs) :
    decoded outputs = [] := by
  refine List.filterMap_eq_nil_iff.mpr fun output houtput => ?_
  cases output with
  | decodeFrame frame origins during => exact absurd houtput (h frame origins during)
  | status | sendControlMessage => rfl

theorem step_of_not_datagram (s : ServiceManager) {e : Event}
    (he : ∀ source data, e ≠ .datagram source data) :
    ((s.step env e).1.reassembler.pendingFrames = s.reassembler.pendingFrames ∧
      (s.step env e).1.reassembler.waitingForKeyframe = s.reassembler.waitingForKeyframe) ∧
      decoded (s.step env e).2 = [] := by
  have hreport (text : Text) : decoded (s.report text) = [] := by
    unfold ServiceManager.report
    split_ifs <;> rfl
  cases e with
  | datagram source data => exact absurd rfl (he source data)
  | connectBegin =>
    simp only [ServiceManager.step]
    split_ifs <;> exact ⟨⟨rfl, rfl⟩, rfl⟩
  | connectEnd ok =>
    simp only [ServiceManager.step]
    split_ifs
    · exact ⟨⟨rfl, rfl⟩, rfl⟩
    · exact ⟨⟨rfl, rfl⟩, hreport _⟩
    · exact ⟨⟨rfl, rfl⟩, hreport _⟩
  | disconnectDevice => exact ⟨⟨rfl, rfl⟩, rfl⟩
  | controlLine message myKeys =>
    simp only [ServiceManager.step]
    split_ifs
    · refine ⟨?_, decoded_eq_nil fun frame origins during ho =>
        s.ne_decodeFrame_of_onTcpControlMessage message myKeys ho frame origins during rfl⟩
      rcases s.onTcpControlMessage_cases message myKeys with
        ⟨_, _, -, -, -, hs⟩ | ⟨-, -, hs⟩ | hs | hs <;> rw [hs]
      · unfold ServiceManager.acceptChallenge
        dsimp only
        split_ifs <;> exact ⟨rfl, rfl⟩
      · exact ⟨rfl, rfl⟩
      · exact ⟨rfl, rfl⟩
      · exact ⟨rfl, rfl⟩
    · exact ⟨⟨rfl, rfl⟩, rfl⟩

/-- Requests for keyframes do not reach the buffer. -/
theorem exec_onCallback_of_missing {calls : List (Callback MediaOrigin)}
    (h : ∀ frame origins, .frameReady frame origins ∉ calls) (now : ℤ) (s : BufferedManager) :
    Machine.exec (onCallback now) s calls = (s, calls.flatMap s.manager.onCallback) ∧
      decoded (calls.flatMap s.manager.onCallback) = [] := by
  induction calls with
  | nil => exact ⟨rfl, rfl⟩
  | cons call calls ih =>
    obtain ⟨hexec, hnone⟩ := ih fun frame origins hmem =>
      h frame origins (List.mem_cons_of_mem _ hmem)
    cases call with
    | frameReady frame origins => exact absurd List.mem_cons_self (h frame origins)
    | missingKeyframe frameId =>
      rw [Machine.exec_cons, onCallback, hexec, List.flatMap_cons, decoded_append, hnone]
      refine ⟨rfl, ?_⟩
      simp only [ServiceManager.onCallback]
      split_ifs <;> rfl

theorem Beside.pushFrame (h : Beside s n) {frame : VideoFrame}
    (hkeyframe : s.manager.reassembler.waitingForKeyframe = true → frame.isKeyframe = true)
    (now : ℤ) :
    (s.jitterBuffer.pushFrame frame now).2 = false ∧
      (s.jitterBuffer.pushFrame frame now).1.waitingForInitialKeyframe = false ∧
      (s.jitterBuffer.pushFrame frame now).1.config = {} ∧
      (s.jitterBuffer.pushFrame frame now).1.queue.length = min (n + 1) 10 ∧
      (s.jitterBuffer.pushFrame frame now).1.droppedFrames = n + 1 - 10 := by
  have hwants : ¬ (s.jitterBuffer.waitingForInitialKeyframe && !frame.isKeyframe) = true := by
    rw [Bool.and_eq_true, not_and]
    intro hwaiting
    simp [hkeyframe (h.waiting hwaiting)]
  have hkept := JitterBuffer.length_dropStale_eq s.jitterBuffer.config.maxQueueFrames_pos
    s.jitterBuffer.queue
  have hmax : s.jitterBuffer.config.maxQueueFrames = 10 := by rw [h.config]
  rw [h.length_queue, hmax] at hkept
  unfold JitterBuffer.pushFrame JitterBuffer.queueWith
  rw [if_neg hwants, hmax]
  refine ⟨rfl, rfl, h.config, ?_, ?_⟩
  · rw [List.orderedInsert_length, hkept]
    omega
  · dsimp only
    rw [hkept, h.length_queue, h.droppedFrames]
    omega

variable (env) in
theorem Beside.step (h : Beside s n) (e : Event × ℤ) :
    (s.step env e).1.manager = (s.manager.step env e.1).1 ∧
      (s.step env e).2 = (s.manager.step env e.1).2 ∧
      Beside (s.step env e).1 (n + (decoded (s.step env e).2).length) := by
  obtain ⟨e, now⟩ := e
  by_cases he : ∃ source data, e = .datagram source data
  · obtain ⟨source, data, rfl⟩ := he
    simp only [BufferedManager.step, ServiceManager.step, onDatagram, ServiceManager.onDatagram]
    split_ifs with hpass
    swap
    · exact ⟨rfl, rfl, h⟩
    have hstill := h.keyframesOnly.pushPacket env.lib
      ⟨source, data, s.manager.reassembler.crypto⟩ data
    rcases h.keyframesOnly.calls env.lib
      ⟨source, data, s.manager.reassembler.crypto⟩ data with
      ⟨hnone, hwaiting⟩ | ⟨frame, origins, hcalls, hkeyframe⟩
    · obtain ⟨hexec, hdecoded⟩ := exec_onCallback_of_missing hnone now s
      rw [hexec]
      dsimp only
      rw [hdecoded]
      exact ⟨rfl, rfl, hstill, fun hw => hwaiting.trans (h.waiting hw), h.config, h.length_queue,
        h.droppedFrames⟩
    · obtain ⟨hwants, hwaiting, hconfig, hlength, hdropped⟩ := h.pushFrame hkeyframe now
      rw [hcalls]
      simp only [Machine.exec_cons, Machine.exec_nil, onCallback, hwants, List.flatMap_cons,
        List.flatMap_nil, List.append_nil, Bool.false_eq_true, if_false]
      refine ⟨trivial, trivial, hstill, fun hw => ?_, hconfig, hlength, hdropped⟩
      rw [hwaiting] at hw
      cases hw
  · have he : ∀ source data, e ≠ .datagram source data := fun source data heq =>
      he ⟨source, data, heq⟩
    have hstep : s.step env (e, now) =
        ({ s with manager := (s.manager.step env e).1 }, (s.manager.step env e).2) := by
      cases e with
      | datagram source data => exact absurd rfl (he source data)
      | _ => rfl
    obtain ⟨⟨hpending, hwaiting⟩, hnone⟩ := @step_of_not_datagram env s.manager e he
    rw [hstep, hnone]
    exact ⟨rfl, rfl, h.keyframesOnly.congr hpending hwaiting,
      fun hw => hwaiting.trans (h.waiting hw), h.config, h.length_queue, h.droppedFrames⟩

/-- In every run from `Initialize` on, the service manager does with its jitter buffer what it does
without: the frames decoded, the status and the messages are the same, and of the frames decoded
the buffer holds up to ten and counts all others as dropped. -/
theorem exec_eq (env : Platform) (events : List (Event × ℤ)) :
    let run := Machine.exec (step env) {} events
    let plain := Machine.exec (ServiceManager.step env) {} (events.map Prod.fst)
    run.1.manager = plain.1 ∧ run.2 = plain.2 ∧
      run.1.jitterBuffer.queue.length = min (decoded run.2).length 10 ∧
      run.1.jitterBuffer.droppedFrames = (decoded run.2).length - 10 := by
  intro run plain
  have hrun : run.1.manager = plain.1 ∧ run.2 = plain.2 ∧
      Beside run.1 (decoded run.2).length := by
    refine Machine.history_invariant (step env) {} events
      (I := fun pre s outputs =>
        s.manager = (Machine.exec (ServiceManager.step env) {} (pre.map Prod.fst)).1 ∧
        outputs = (Machine.exec (ServiceManager.step env) {} (pre.map Prod.fst)).2 ∧
        Beside s (decoded outputs).length) ?_ ?_
    · refine ⟨rfl, rfl, ?_, fun _ => rfl, rfl, rfl, rfl⟩
      intro _ k e he
      cases he
    · rintro pre e post - ⟨hmanager, houtputs, hbeside⟩
      obtain ⟨hmanager', houtputs', hbeside'⟩ := hbeside.step env e
      rw [List.map_append, List.map_singleton, Machine.exec_concat, ← hmanager, ← houtputs,
        decoded_append, List.length_append]
      exact ⟨hmanager', by rw [houtputs'], hbeside'⟩
  exact ⟨hrun.1, hrun.2.1, hrun.2.2.length_queue, hrun.2.2.droppedFrames⟩

end BufferedManager

end VeyraCam
