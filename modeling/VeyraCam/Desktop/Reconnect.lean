import VeyraCam.Desktop.Pairing
import VeyraCam.Packet.Rearm
import VeyraCam.Phone.NativeSender

/-! # Pairing again

`HandlePairingChallenge` arms the reassembler there is, and never resets it. A
later session gets the frames that a new reassembler would emit exactly when
the history of the reassembler has left it unspoiled: a frame emitted before
makes the new session's first frames stale, and an entry pending from before
mixes with the new frame of that number.
-/

namespace VeyraCam

open FrameReassembler NativeSender

variable {ω : Type*} {lib : Mbedtls} {tx rx : SessionCrypto}

theorem exists_packet (hk : SessionCrypto.Mirrors tx rx) (hl : lib.DecryptInvertsEncrypt)
    (he : lib.EncryptSucceeds) (sessionId frameId : UInt32) (timestampUs : UInt64) :
    ∃ sends, KeyframeFirst sends ∧ ∃ packet header payload,
      sessionPackets lib sessionId tx sends = [packet] ∧
      openPacket lib (some rx) packet = some (header, payload) ∧
      header.sessionId = sessionId ∧ header.frameId = frameId ∧
      header.timestampUs = timestampUs ∧ header.isKeyframe = true ∧
      header.fragmentIndex = 0 ∧ header.fragmentCount = 1 := by
  obtain ⟨sends, hfirst, hsent⟩ :=
    exists_sessionPackets_eq lib sessionId tx frameId timestampUs
  set f : VideoFrame := ⟨frameId, timestampUs, true, [0]⟩
  set p : Packetizer := ⟨sessionId, 0, some tx⟩
  have hp : Paired lib p.crypto (some rx) := .keyed hk hl
  have hpos := p.maxPlaintext_pos
  have hcount : Blocks.count p.maxPlaintext f.data.length = 1 :=
    Nat.div_eq_of_lt_le (by simp [f]) (by simp [f]; omega)
  have hs : ∀ g ∈ [f], g.Sendable p.maxPlaintext := by
    intro g hg
    rw [List.mem_singleton.mp hg]
    exact ⟨by simp [f], by omega⟩
  have hlen : (sentPackets lib p [f]).length = 1 := by
    rw [length_sentPackets (hp.keys fun _ => he) hs]
    simp [slots, hcount]
  obtain ⟨packet, hpacket⟩ := List.length_eq_one_iff.mp hlen
  obtain ⟨g, hg, i, hi, header, payload, hopen, hd, hid⟩ :=
    carries_of_mem_sentPackets hp hs (show packet ∈ sentPackets lib p [f] by rw [hpacket]; simp)
  obtain rfl := List.mem_singleton.mp hg
  obtain rfl : i = 0 := by omega
  exact ⟨sends, hfirst, packet, header, payload, hsent.trans hpacket, hopen, hid, hd.frameId,
    hd.timestampUs, hd.isKeyframe, hd.index, by rw [hd.total, hcount]; rfl⟩

/-- Once rearmed, a reassembler emits the same as a new one for every new session exactly
when it is unspoiled. -/
theorem FrameReassembler.Settled.framesOf_rearm_iff {r : FrameReassembler ω} (hs : r.Settled)
    (hk : SessionCrypto.Mirrors tx rx) (hl : lib.DecryptInvertsEncrypt) (he : lib.EncryptSucceeds)
    (sessionId : UInt32) (mark : Bytes → ω) :
    (∀ sends, KeyframeFirst sends →
      framesOf lib mark (r.rearm rx sessionId) (sessionPackets lib sessionId tx sends) =
        framesOf lib mark (rearm {} rx sessionId) (sessionPackets lib sessionId tx sends)) ↔
      r.Unspoiled := by
  constructor
  · intro h
    have hu : (r.rearm rx sessionId).Unspoiled :=
      (hs.congr (by simp)).unspoiled fun frameId timestampUs => by
        obtain ⟨sends, hfirst, packet, header, payload, hsent, hopen, hid, rfl, rfl, hkey, hi,
          hn⟩ := exists_packet hk hl he sessionId frameId timestampUs
        refine ⟨header, payload, rfl, by rw [hi, hn]; decide, mark packet, header.isKeyframe,
          payload, ?_⟩
        rw [← emitted_rearm_empty hid hkey hi hn (mark packet) payload rx]
        have heq := h sends hfirst
        rw [hsent] at heq
        simpa [framesOf, receive, FrameReassembler.pushPacket, hopen] using heq
    exact ⟨by simpa using hu.waiting, by simpa using hu.pending⟩
  · exact fun h sends _ => (h.ahead hs rx sessionId).framesOf_eq
      fun _ hd => fragmentIndex_lt_of_mem_sessionPackets hd

namespace ServiceManager

variable {env : Platform} {s : ServiceManager}

theorem settled_step (h : s.reassembler.Settled) (e : Event) :
    (s.step env e).1.reassembler.Settled := by
  cases e with
  | connectBegin hostIp pin onStatus => simp only [step]; split_ifs <;> exact h
  | connectEnd ok => simp only [step]; split_ifs <;> exact h
  | disconnectDevice => exact h
  | controlLine message myKeys =>
    simp only [step]
    split_ifs
    · rcases s.onTcpControlMessage_cases message myKeys with
        ⟨crypto, sessionId, -, -, -, hs⟩ | ⟨-, -, hs⟩ | hs | hs <;> rw [hs]
      · refine h.congr ?_
        unfold acceptChallenge
        dsimp only
        split_ifs <;> rfl
      · exact h
      · exact h
      · exact h
    · exact h
  | datagram source data =>
    simp only [step, onDatagram]
    split_ifs
    · exact h.pushPacket _ data
    · exact h

theorem reassembler_of_accepted {pubKey : Text} {sessionId : UInt32} {myKeys : KeyPair}
    (hp : s.pairingState = .awaitingChallenge)
    (hp' : (s.handlePairingChallenge env pubKey sessionId myKeys).1.pairingState =
      .awaitingPairingOk) {crypto : SessionCrypto}
    (hc : (s.handlePairingChallenge env pubKey sessionId myKeys).1.crypto = some crypto) :
    (s.handlePairingChallenge env pubKey sessionId myKeys).1.reassembler =
      s.reassembler.rearm crypto sessionId := by
  unfold handlePairingChallenge at hp' hc ⊢
  dsimp only at hp' hc ⊢
  split_ifs at hp' hc ⊢ with hstate hempty hlen hfail
  · exact absurd hp hstate
  · rw [hp] at hp'; cases hp'
  · rw [hp] at hp'; cases hp'
  · obtain rfl := Option.some.inj hc
    rfl
  · rw [hp] at hp'; cases hp'

/-- After any run and a challenge that is taken, the new session's frames are those of a new
reassembler exactly when the run has left the reassembler unspoiled. -/
theorem framesOf_reconnect_iff (hl : env.lib.DecryptInvertsEncrypt)
    (he : env.lib.EncryptSucceeds) {events : List Event} {pubKey : Text} {sessionId : UInt32}
    {myKeys : KeyPair} {s s' : ServiceManager} (hs : s = (Machine.exec (step env) {} events).1)
    (hs' : s' = (s.handlePairingChallenge env pubKey sessionId myKeys).1)
    (hp : s.pairingState = .awaitingChallenge) (hp' : s'.pairingState = .awaitingPairingOk)
    (hc : s'.crypto = some rx) (hk : SessionCrypto.Mirrors tx rx) (mark : Bytes → MediaOrigin) :
    (∀ sends, KeyframeFirst sends →
      framesOf env.lib mark s'.reassembler (sessionPackets env.lib sessionId tx sends) =
        framesOf env.lib mark (rearm {} rx sessionId)
          (sessionPackets env.lib sessionId tx sends)) ↔
      s.reassembler.Unspoiled := by
  subst hs'
  have hsettled : s.reassembler.Settled := hs ▸ Machine.invariant
    (I := fun s : ServiceManager => s.reassembler.Settled) (fun _ e h => settled_step h e)
    (settled_of_empty rfl) events
  rw [reassembler_of_accepted hp hp' hc]
  exact hsettled.framesOf_rearm_iff hk hl he sessionId mark

set_option maxRecDepth 100000 in
theorem framesOf_reconnect_iff_sample :
    let s := (Machine.exec (step .sample) {} [.connectBegin "10.0.0.2".toList "1234".toList true,
      .connectEnd true, .datagram 0x0200000A (sampleFragment none 0)]).1
    let s' := (s.handlePairingChallenge .sample (.replicate 32 (.ofNat 49)) 7 sampleKeys).1
    let rx := s'.crypto.getD {}
    let mark : Bytes → MediaOrigin := (⟨0x0200000A, ·, some rx⟩)
    (∀ sends, KeyframeFirst sends →
      framesOf .sample mark s'.reassembler (sessionPackets .sample 7 rx.mirror sends) =
        framesOf .sample mark (rearm {} rx 7) (sessionPackets .sample 7 rx.mirror sends)) ↔
      s.reassembler.Unspoiled := by
  intro s s' rx mark
  have hl : Platform.sample.lib.DecryptInvertsEncrypt := Mbedtls.sample_decryptInvertsEncrypt
  exact framesOf_reconnect_iff hl Mbedtls.sample_encryptSucceeds rfl rfl (by decide) (by decide)
    (show s'.crypto = some rx by decide)
    (SessionCrypto.mirrors_mirror (show rx.hasKeys = true by decide)) mark

set_option maxRecDepth 100000 in
/-- After one frame of a first session, the keyframe that a second one starts with is lost. -/
theorem not_framesOf_reconnect_eq :
    let crypto := (challengeCrypto .sample sampleChallenge sampleKeys).getD {}
    let s := (Machine.exec (step .sample) {} [.connectBegin "10.0.0.2".toList "1234".toList true,
      .connectEnd true, .controlLine sampleChallenge sampleKeys, .controlLine sampleOk sampleKeys,
      .datagram 0x0200000A (samplePacket (some crypto.mirror)), .disconnectDevice,
      .connectBegin "10.0.0.2".toList "5678".toList true, .connectEnd true]).1
    let s' := (s.handlePairingChallenge .sample (.replicate 32 (.ofNat 50)) 8
      ⟨.replicate 32 4, .replicate 32 5⟩).1
    let rx := s'.crypto.getD {}
    let mark : Bytes → MediaOrigin := (⟨0x0200000A, ·, some rx⟩)
    let sent := sessionPackets .sample 8 rx.mirror
      [.videoNal (.data [1]) true 6, .videoNal (.data [2]) false 7]
    s'.pairingState = .awaitingPairingOk ∧
      framesOf .sample mark s'.reassembler sent = [⟨2, 7, false, [2]⟩] ∧
      framesOf .sample mark s'.reassembler sent ≠ framesOf .sample mark (rearm {} rx 8) sent := by
  decide

end ServiceManager

end VeyraCam
