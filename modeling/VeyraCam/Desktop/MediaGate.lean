import VeyraCam.Desktop.Pairing
import VeyraCam.Packet.Packetizer
import VeyraCam.Packet.Provenance

/-! # The media gate

What reaches the decoder should come from the paired host, under its keys, in
the paired state. The source filter and the key are in place from the accepted
challenge on, but nothing on the media path looks at the pairing state, and
fragments from before the challenge stay pending.
-/

namespace VeyraCam

open FrameReassembler

/-- The payload is that of an encrypted packet, and authenticates under the key. -/
def Authentic (lib : Mbedtls) (crypto : SessionCrypto) (packetData payload : Bytes) : Prop :=
  ∃ header, deserializeHeader packetData = some header ∧ header.isEncrypted = true ∧
    crypto.decrypt lib ((packetData.drop headerSize).take header.payloadLength.toNat)
      header.sequence (packetData.take headerSize) = some payload

theorem authentic_of_openPacket {lib : Mbedtls} {crypto : SessionCrypto}
    {packetData payload : Bytes} {header : PacketHeader}
    (h : openPacket lib (some crypto) packetData = some (header, payload)) :
    Authentic lib crypto packetData payload := by
  unfold openPacket at h
  cases hd : deserializeHeader packetData with
  | none => simp [hd] at h
  | some header' =>
    simp only [hd, Option.isSome_some, if_true] at h
    split_ifs at h with hlen hstream henc
    obtain ⟨plaintext, hplain, he⟩ := Option.map_eq_some_iff.mp h
    obtain ⟨-, rfl⟩ := Prod.mk.inj he
    exact ⟨header', hd, henc, hplain⟩

namespace ServiceManager

variable {env : Platform} {s : ServiceManager}

def FromHost (lib : Mbedtls) (source : UInt32) (crypto : SessionCrypto)
    (f : Fragment MediaOrigin) : Prop :=
  f.origin.source = source ∧ Authentic lib crypto f.origin.packetData f.payload

/-- A frame is decoded in the paired state only, and from fragments that came from the
paired host and authenticated under the keys of the pairing. -/
def Gated (env : Platform) : Output → Prop
  | .decodeFrame frame origins during =>
    during.pairingState = .paired ∧ Established env during ∧
      ∃ source crypto, env.inetPton during.hostIp = some source ∧
        during.crypto = some crypto ∧
        (Callback.frameReady frame origins).MadeOf (FromHost env.lib source crypto)
  | _ => True

/-- What the gate does not see to: media completes a frame in the paired state only, and an
accepted challenge finds no pending frames, and a host address to filter by. -/
def Secured (env : Platform) (s : ServiceManager) (e : Event) : Prop :=
  InSequence env s e ∧
    match e with
    | .datagram source data =>
      s.udpServer.passes source data = true →
        s.reassembler.Completes env.lib ⟨source, data, s.reassembler.crypto⟩ data →
        s.pairingState = .paired
    | .controlLine message myKeys =>
      extractJsonString message "type".toList = "pairing_challenge".toList →
        s.pairingState = .awaitingChallenge →
        (challengeCrypto env message myKeys).isSome = true →
        s.reassembler.pendingFrames = ∅ ∧
          (UdpServer.setExpectedPeer env.inetPton s.hostIp).expectedPeerAddr ≠ 0
    | _ => True

instance : (e : Event) → Decidable (Secured env s e)
  | .datagram _ _ => inferInstanceAs (Decidable (_ ∧ (_ → _ → _)))
  | .controlLine _ _ => inferInstanceAs (Decidable (_ ∧ (_ → _ → _ → _ ∧ _)))
  | .connectBegin _ _ _ | .connectEnd _ | .disconnectDevice =>
    inferInstanceAs (Decidable (_ ∧ True))

/-- The invariant: from the accepted challenge on, the filter is on and everything pending
is from the paired host. -/
structure Closed (env : Platform) (s : ServiceManager) : Prop extends Sequenced env s where
  filtered : s.pairingState = .awaitingPairingOk ∨ s.pairingState = .paired →
    s.udpServer.expectedPeerAddr ≠ 0
  pending : s.pairingState = .awaitingPairingOk ∨ s.pairingState = .paired →
    ∀ crypto, s.crypto = some crypto →
      s.reassembler.AllFragments (FromHost env.lib s.udpServer.expectedPeerAddr crypto)

theorem inetPton_of_expectedPeerAddr {inetPton : Text → Option UInt32} {hostIp : Text}
    (h : (UdpServer.setExpectedPeer inetPton hostIp).expectedPeerAddr ≠ 0) :
    inetPton hostIp = some (UdpServer.setExpectedPeer inetPton hostIp).expectedPeerAddr := by
  unfold UdpServer.setExpectedPeer at h ⊢
  dsimp only at h ⊢
  split_ifs at h ⊢ with he
  · exact absurd rfl h
  · cases hp : inetPton hostIp with
    | none => rw [hp] at h; exact absurd rfl h
    | some source => rfl

theorem Closed.datagram (h : Closed env s) {source : UInt32} {data : Bytes}
    (hg : Secured env s (.datagram source data)) :
    Closed env (s.onDatagram env source data).1 ∧
      ∀ o ∈ (s.onDatagram env source data).2, Gated env o := by
  have hseq : Sequenced env (s.onDatagram env source data).1 :=
    h.toSequenced.step (e := .datagram source data) hg.1
  unfold onDatagram at hseq ⊢
  split_ifs at hseq ⊢ with hpass
  swap
  · exact ⟨h, by simp⟩
  set origin : MediaOrigin := ⟨source, data, s.reassembler.crypto⟩
  have hfragments : ∀ crypto, s.crypto = some crypto →
      s.pairingState = .awaitingPairingOk ∨ s.pairingState = .paired →
      (s.reassembler.pushPacket env.lib origin data).state.AllFragments
          (FromHost env.lib s.udpServer.expectedPeerAddr crypto) ∧
        ∀ c ∈ (s.reassembler.pushPacket env.lib origin data).calls,
          c.MadeOf (FromHost env.lib s.udpServer.expectedPeerAddr crypto) := by
    intro crypto hcrypto hp
    obtain ⟨crypto', hcrypto', -, harmed⟩ := (h.established hp).keyed
    obtain rfl : crypto = crypto' := Option.some.inj (hcrypto.symm.trans hcrypto')
    refine (h.pending hp crypto hcrypto).pushPacket fun header payload ho _ _ => ⟨?_, ?_⟩
    · exact UdpServer.source_of_passes (h.filtered hp) hpass
    · exact authentic_of_openPacket (harmed ▸ ho)
  refine ⟨{ hseq with
    filtered := h.filtered
    pending := fun hp crypto hcrypto => (hfragments crypto hcrypto hp).1 }, fun o ho => ?_⟩
  obtain ⟨c, hc, ho⟩ := List.mem_flatMap.mp ho
  cases c with
  | missingKeyframe frameId =>
    simp only [onCallback] at ho
    split_ifs at ho
    · rw [List.mem_singleton.mp ho]; trivial
    · cases ho
  | frameReady frame origins =>
    rw [List.mem_singleton.mp ho]
    have hpaired := hg.2 hpass (completes_of_frameReady hc)
    have hest := h.established (.inr hpaired)
    obtain ⟨crypto, hcrypto, -, -⟩ := hest.keyed
    have haddr := h.filtered (.inr hpaired)
    rw [hest.expectedPeer] at haddr
    refine ⟨hpaired, hest, _, crypto, inetPton_of_expectedPeerAddr haddr, hcrypto, ?_⟩
    rw [← hest.expectedPeer]
    exact (hfragments crypto hcrypto (.inr hpaired)).2 _ hc

theorem Closed.controlLine (h : Closed env s) {message : Text} {myKeys : KeyPair}
    (hg : Secured env s (.controlLine message myKeys)) {n : ℕ} (hn : s.connection = some n) :
    Closed env (s.onTcpControlMessage env message myKeys).1 := by
  have hseq := h.toSequenced.controlLine hg.1 hn
  rcases s.onTcpControlMessage_cases message myKeys with
    ⟨crypto, sessionId, htype, hstate, hcrypto, hs⟩ | ⟨htype, htoken, hs⟩ | hs | hs <;>
    rw [hs] at hseq ⊢
  · obtain ⟨hempty, haddr⟩ := hg.2 htype hstate (by rw [hcrypto]; rfl)
    refine { hseq with
      filtered := fun _ => haddr
      pending := fun _ _ _ => allFragments_of_empty ?_ }
    unfold acceptChallenge
    dsimp only
    split_ifs
    · exact hempty
    · exact hempty
  · exact { hseq with
      filtered := fun _ => h.filtered (hg.1.2 htype htoken)
      pending := fun _ => h.pending (hg.1.2 htype htoken) }
  · exact { hseq with
      filtered := fun hp => by simp at hp
      pending := fun hp => by simp at hp }
  · exact h

theorem Closed.step (h : Closed env s) {e : Event} (hg : Secured env s e) :
    Closed env (s.step env e).1 ∧ ∀ o ∈ (s.step env e).2, Gated env o := by
  have hreport : ∀ (q : ServiceManager) (text : Text), ∀ o ∈ q.report text, Gated env o := by
    intro q text o ho
    unfold report at ho
    split_ifs at ho
    · rw [List.mem_singleton.mp ho]; trivial
    · cases ho
  cases e with
  | datagram source data => exact h.datagram hg
  | controlLine message myKeys =>
    simp only [ServiceManager.step]
    split_ifs with hc
    · obtain ⟨n, hn⟩ := Option.isSome_iff_exists.mp hc
      refine ⟨h.controlLine hg hn, fun o ho => ?_⟩
      cases o with
      | decodeFrame frame origins during =>
        exact absurd rfl (s.ne_decodeFrame_of_onTcpControlMessage message myKeys ho _ _ _)
      | status text => trivial
      | sendControlMessage text => trivial
    · exact ⟨h, by simp⟩
  | connectBegin hostIp pin onStatus =>
    have hseq := h.toSequenced.step hg.1
    simp only [ServiceManager.step] at hseq ⊢
    split_ifs at hseq ⊢
    · exact ⟨h, by simp⟩
    · exact ⟨{ hseq with
        filtered := fun hp => by simp at hp
        pending := fun hp => by simp at hp }, by simp⟩
  | connectEnd ok =>
    have hseq := h.toSequenced.step hg.1
    simp only [ServiceManager.step] at hseq ⊢
    split_ifs at hseq ⊢
    · exact ⟨h, by simp⟩
    · exact ⟨{ hseq with filtered := h.filtered, pending := h.pending }, hreport _ _⟩
    · exact ⟨{ hseq with
        filtered := fun hp => by simp at hp
        pending := fun hp => by simp at hp }, hreport _ _⟩
  | disconnectDevice =>
    have hseq := h.toSequenced.step hg.1
    exact ⟨{ hseq with
      filtered := fun hp => by simp [ServiceManager.step] at hp
      pending := fun hp => by simp [ServiceManager.step] at hp }, by simp [ServiceManager.step]⟩

/-- In a run in which the gate is not bypassed, every decoded frame is gated. -/
theorem gated_of_secured {events : List Event}
    (h : Machine.Guarded (step env) (Secured env) {} events) :
    ∀ o ∈ (Machine.exec (step env) {} events).2, Gated env o := by
  refine (h.invariant (I := Closed env) (fun _ _ hs hg => hs.step hg) ?_).2
  exact { established := by simp, current := by simp, unpaired := by simp, filtered := by simp,
          pending := by simp }

set_option maxRecDepth 100000 in
theorem gated_of_secured_sample :
    let crypto := (challengeCrypto .sample sampleChallenge sampleKeys).getD {}
    let events := [.connectBegin "10.0.0.2".toList "1234".toList true, .connectEnd true,
      .datagram 0x0100007F (samplePacket none).tail, .controlLine sampleChallenge sampleKeys,
      .controlLine sampleOk sampleKeys, .datagram 0x0100007F (samplePacket (some crypto.mirror)),
      .datagram 0x0200000A (samplePacket (some crypto.mirror))]
    (∀ o ∈ (Machine.exec (step .sample) {} events).2, Gated .sample o) ∧
      (Machine.exec (step .sample) {} events).2.length = 6 :=
  ⟨gated_of_secured (by decide), by decide⟩

set_option maxRecDepth 100000 in
/-- Before any pairing, a plaintext frame from anywhere is decoded. -/
theorem not_gated_before_pairing :
    ¬ ∀ o ∈ (Machine.exec (step .sample) {} [.datagram 0x0100007F (samplePacket none)]).2,
      Gated .sample o := by
  intro h
  have ho : (Machine.exec (step .sample) {} [.datagram 0x0100007F (samplePacket none)]).2 =
      [.decodeFrame ⟨1, 5, true, [1, 2, 3]⟩ [⟨0x0100007F, samplePacket none, none⟩] {}] := by
    decide
  rw [ho] at h
  obtain ⟨hpaired, -⟩ := h _ List.mem_cons_self
  cases hpaired

end ServiceManager

end VeyraCam
