import VeyraCam.Desktop.ServiceManager
import VeyraCam.Link.Agreement
import VeyraCam.Packet.Reception

/-! # What the desktop decodes

Of the datagrams that open at a desktop with keys, all carry fragments of one
stream. What it decodes under the keys that it took with the challenge are
frames of this stream, in their order.
-/

namespace VeyraCam

open FrameReassembler

namespace ControlLink

def decodedBy (outputs : List Output) : List VideoFrame :=
  outputs.filterMap fun
    | .decodeFrame frame _ _ => some frame
    | _ => none

variable {env : Platform} {fs out : List VideoFrame} {m : ℕ} {d : ServiceManager}

/-- Frames of a stream, each at most once and in order, from a keyframe on. -/
structure InOrder (fs out : List VideoFrame) : Prop where
  subset : out ⊆ fs
  increasing : out.Pairwise VideoFrame.Before
  keyframe : ∀ g, out.head? = some g → g.isKeyframe = true

/-- A desktop and the frames it has decoded under the keys it has. -/
structure Watched (m : ℕ) (fs : List VideoFrame) (d : ServiceManager) (out : List VideoFrame) :
    Prop where
  connecting : d.connecting = true → d.crypto = none
  disconnected : d.pairingState = .disconnected → d.crypto = none
  awaiting : d.pairingState = .awaitingChallenge → d.reassembler.crypto = none
  keyless : d.reassembler.crypto = none → d.reassembler.pendingFrames = ∅ ∧
    d.reassembler.waitingForKeyframe = true ∧ out = []
  keyed : ∀ c, d.crypto = some c → d.reassembler.crypto = some c ∧ Sound m fs d.reassembler out
  inOrder : InOrder fs out

/-- A desktop without keys, past the challenge or with a reassembler that has none either. -/
theorem Watched.drop (h : Watched m fs d out) {d' : ServiceManager} (hcrypto : d'.crypto = none)
    (hreassembler : d'.reassembler = d.reassembler)
    (hstate : d'.pairingState ≠ .awaitingChallenge) : Watched m fs d' out := by
  constructor
  · exact fun _ => hcrypto
  · exact fun _ => hcrypto
  · exact fun hs => absurd hs hstate
  · rw [hreassembler]
    exact h.keyless
  · intro c hc
    rw [hcrypto] at hc
    cases hc
  · exact h.inOrder

theorem Watched.acceptChallenge (h : Watched m fs d out) (hidle : d.connecting = false)
    (hstate : d.pairingState = .awaitingChallenge) (crypto : SessionCrypto)
    (sessionId : UInt32) : Watched m fs (d.acceptChallenge env crypto sessionId) out := by
  have hkey : (d.acceptChallenge env crypto sessionId).reassembler.crypto = some crypto := by
    unfold ServiceManager.acceptChallenge
    dsimp only
    split_ifs <;> rfl
  obtain ⟨hpending, hwaiting, rfl⟩ := h.keyless (h.awaiting hstate)
  constructor
  · intro hc
    rw [show (d.acceptChallenge env crypto sessionId).connecting = d.connecting from rfl,
      hidle] at hc
    cases hc
  · intro hs
    cases hs
  · intro hs
    cases hs
  · intro hnone
    rw [hkey] at hnone
    cases hnone
  · rintro c ⟨⟩
    refine ⟨hkey, ?_⟩
    have hframe : (d.acceptChallenge env crypto sessionId).reassembler.pendingFrames = ∅ ∧
        (d.acceptChallenge env crypto sessionId).reassembler.waitingForKeyframe = true := by
      unfold ServiceManager.acceptChallenge
      dsimp only
      split_ifs <;> exact ⟨hpending, hwaiting⟩
    exact ⟨by simp [hframe.1], fun _ => rfl, by simp [hframe.2], by simp, by simp, by simp⟩
  · exact h.inOrder

theorem Watched.event (h : Watched m fs d out) (hsettled : d.Settled) {e : Event}
    (hbegin : ∀ hostIp pin onStatus, e ≠ .connectBegin hostIp pin onStatus)
    (hdatagram : ∀ source data, e ≠ .datagram source data) :
    Watched m fs (d.step env e).1 out ∧
      (d.pairingState ≠ .awaitingChallenge →
        (d.step env e).1.pairingState ≠ .awaitingChallenge ∧
          ∀ c, (d.step env e).1.crypto = some c → d.crypto = some c) := by
  cases e with
  | connectBegin hostIp pin onStatus => exact absurd rfl (hbegin hostIp pin onStatus)
  | datagram source data => exact absurd rfl (hdatagram source data)
  | connectEnd ok =>
    simp only [ServiceManager.step]
    split_ifs with hidle hok
    · exact ⟨h, fun hs => ⟨hs, fun _ hc => hc⟩⟩
    · exact ⟨⟨fun hc => by simp at hc, h.disconnected, h.awaiting, h.keyless, h.keyed,
        h.inOrder⟩,
        fun hs => ⟨hs, fun _ hc => hc⟩⟩
    · have hnone := h.connecting (by simpa using hidle)
      exact ⟨h.drop hnone rfl (by simp), fun _ => ⟨by simp, fun _ hc => hc⟩⟩
  | disconnectDevice =>
    exact ⟨h.drop rfl rfl (by simp [ServiceManager.step]),
      fun _ => ⟨by simp [ServiceManager.step], by simp [ServiceManager.step]⟩⟩
  | controlLine message myKeys =>
    simp only [ServiceManager.step]
    split_ifs with hopen
    · have hidle := hsettled hopen
      rcases d.onTcpControlMessage_cases message myKeys with
        ⟨crypto, sessionId, -, hstate, -, hs⟩ | ⟨-, -, hs⟩ | hs | hs <;> rw [hs]
      · exact ⟨h.acceptChallenge hidle hstate crypto sessionId, fun hne => absurd hstate hne⟩
      · refine ⟨⟨fun _ => ?_, by simp, by simp, h.keyless, h.keyed, h.inOrder⟩,
          fun _ => ⟨by simp, fun _ hc => hc⟩⟩
        exact h.connecting ‹_›
      · exact ⟨h.drop rfl rfl (by simp), fun _ => ⟨by simp, by simp⟩⟩
      · exact ⟨h, fun hs => ⟨hs, fun _ hc => hc⟩⟩
    · exact ⟨h, fun hs => ⟨hs, fun _ hc => hc⟩⟩

theorem decodedBy_onCallback (calls : List (Callback MediaOrigin)) :
    decodedBy (calls.flatMap d.onCallback) = emitted calls := by
  induction calls with
  | nil => rfl
  | cons call calls ih =>
    rw [List.flatMap_cons, decodedBy, List.filterMap_append]
    cases call with
    | frameReady frame origins => exact congrArg (frame :: ·) ih
    | missingKeyframe frameId =>
      simp only [ServiceManager.onCallback]
      split_ifs <;> exact ih

theorem Watched.pushPacket (h : Watched m fs d out) (origin : MediaOrigin) (hm : 0 < m)
    (hs : ∀ f ∈ fs, f.Sendable m)
    (hid : ∀ f ∈ fs, 1 ≤ f.frameId.toNat ∧ f.frameId.toNat < 2 ^ 31)
    (hinc : fs.Pairwise VideoFrame.Before) {data : Bytes} (hkey : d.reassembler.crypto ≠ none)
    (hcarries : d.crypto.isSome = true → ∃ sessionId, ∃ f ∈ fs,
      ∃ i < Blocks.count m f.data.length,
        Carries env.lib d.reassembler.crypto m sessionId f i data) :
    Watched m fs
      { d with reassembler := (d.reassembler.pushPacket env.lib origin data).state }
      (out ++ if d.crypto.isSome then
        emitted (d.reassembler.pushPacket env.lib origin data).calls else []) := by
  have hcrypto := @pushPacket_crypto _ env.lib d.reassembler origin data
  have hsound (c : SessionCrypto) (hc : d.crypto = some c) :
      d.reassembler.crypto = some c ∧
        Sound m fs (d.reassembler.pushPacket env.lib origin data).state
          (out ++ emitted (d.reassembler.pushPacket env.lib origin data).calls) := by
    obtain ⟨harmed, hsound⟩ := h.keyed c hc
    obtain ⟨sessionId, f, hf, i, hi, hcar⟩ := hcarries (by rw [hc]; rfl)
    exact ⟨harmed, hsound.pushPacket hm hs hid hinc hf hi hcar⟩
  constructor
  · exact h.connecting
  · exact h.disconnected
  · exact fun hstate => absurd (h.awaiting hstate) hkey
  · intro hnone
    exact absurd (hcrypto.symm.trans hnone) hkey
  · intro c hc
    have hc : d.crypto = some c := hc
    obtain ⟨harmed, hsound⟩ := hsound c hc
    rw [hc, Option.isSome_some, if_pos rfl]
    exact ⟨hcrypto.trans harmed, hsound⟩
  · cases hc : d.crypto with
    | none => simpa using h.inOrder
    | some c =>
      obtain ⟨-, hsound⟩ := hsound c hc
      exact ⟨hsound.subset, hsound.increasing, hsound.keyframe⟩

variable (env) in
theorem Watched.datagram (h : Watched m fs d out) (source : UInt32) (hm : 0 < m)
    (hs : ∀ f ∈ fs, f.Sendable m)
    (hid : ∀ f ∈ fs, 1 ≤ f.frameId.toNat ∧ f.frameId.toNat < 2 ^ 31)
    (hinc : fs.Pairwise VideoFrame.Before) {data : Bytes}
    (hopen : d.udpServer.passes source data = true →
      (openPacket env.lib d.reassembler.crypto data).isSome = true →
      d.reassembler.crypto ≠ none ∧ (d.crypto.isSome = true → ∃ sessionId, ∃ f ∈ fs,
        ∃ i < Blocks.count m f.data.length,
          Carries env.lib d.reassembler.crypto m sessionId f i data)) :
    Watched m fs (d.onDatagram env source data).1
      (out ++ if d.crypto.isSome then decodedBy (d.onDatagram env source data).2 else []) := by
  unfold ServiceManager.onDatagram
  by_cases hpass : d.udpServer.passes source data = true
  · rw [if_pos hpass]
    dsimp only
    rw [decodedBy_onCallback]
    cases hp : openPacket env.lib d.reassembler.crypto data with
    | none =>
      rw [pushPacket_of_none hp, emitted_nil, ite_self, List.append_nil]
      exact h
    | some opened =>
      obtain ⟨hkey, hcarries⟩ := hopen hpass (by rw [hp]; rfl)
      exact h.pushPacket _ hm hs hid hinc hkey hcarries
  · rw [if_neg hpass]
    simpa [decodedBy] using h

end ControlLink

end VeyraCam
