import VeyraCam.Desktop.ServiceManager

/-! # Pairing

`HandlePairingChallenge` is the one place where keys are armed and the expected
peer is set, and it checks the pairing state. `HandlePairingResult` does not: a
`pairing_ok` is taken in every state. What the paired state promises holds in
the runs in which a `pairing_ok` comes after a challenge, and no challenge of an
earlier connection is taken while a new one is being made.
-/

namespace VeyraCam.ServiceManager

variable {env : Platform} {s : ServiceManager}

/-- What the paired state promises: derived keys, armed in the reassembler, and the expected
peer set, by a challenge of this connection. -/
structure Established (env : Platform) (s : ServiceManager) : Prop where
  keyed : ∃ crypto, s.crypto = some crypto ∧ crypto.hasKeys = true ∧
    s.reassembler.crypto = some crypto
  expectedPeer : s.udpServer = .setExpectedPeer env.inetPton s.hostIp
  connection : s.connection = some s.attempt
  challengedBy : s.challengedBy = some s.attempt

/-- A challenge is taken only when no connection is being made, and a `pairing_ok` with a
token only after a challenge. -/
def InSequence (env : Platform) (s : ServiceManager) : Event → Prop
  | .controlLine message myKeys =>
    let type := extractJsonString message "type".toList
    (type = "pairing_challenge".toList → s.pairingState = .awaitingChallenge →
      (challengeCrypto env message myKeys).isSome = true → s.connecting = false) ∧
    (type = "pairing_ok".toList →
      (extractJsonString message "token".toList).isEmpty = false →
      s.pairingState = .awaitingPairingOk ∨ s.pairingState = .paired)
  | _ => True

instance : (e : Event) → Decidable (InSequence env s e)
  | .controlLine _ _ => inferInstanceAs (Decidable (_ ∧ _))
  | .connectBegin _ _ _ | .connectEnd _ | .disconnectDevice | .datagram _ _ => isTrue trivial

/-- The invariant: a challenge has been taken where one has to have been, and otherwise
none. -/
structure Sequenced (env : Platform) (s : ServiceManager) : Prop where
  established : s.pairingState = .awaitingPairingOk ∨ s.pairingState = .paired →
    Established env s
  current : s.connecting = false → ∀ n, s.connection = some n → n = s.attempt
  unpaired : s.connecting = true →
    s.pairingState = .awaitingChallenge ∨ s.pairingState = .disconnected

theorem Sequenced.controlLine (h : Sequenced env s) {message : Text} {myKeys : KeyPair}
    (hg : InSequence env s (.controlLine message myKeys)) {n : ℕ} (hn : s.connection = some n) :
    Sequenced env (s.onTcpControlMessage env message myKeys).1 := by
  rcases s.onTcpControlMessage_cases message myKeys with
    ⟨crypto, sessionId, htype, hstate, hcrypto, hs⟩ | ⟨htype, htoken, hs⟩ | hs | hs <;> rw [hs]
  · have hidle := hg.1 htype hstate (by rw [hcrypto]; rfl)
    have hcur : s.connection = some s.attempt := by rw [hn, h.current hidle n hn]
    have hre : (s.acceptChallenge env crypto sessionId).reassembler.crypto = some crypto := by
      unfold acceptChallenge; dsimp only; split_ifs <;> rfl
    refine ⟨fun _ => ⟨⟨crypto, rfl, hasKeys_of_challengeCrypto hcrypto, hre⟩, rfl, hcur, hcur⟩,
      h.current, fun hc => ?_⟩
    rw [show s.connecting = true from hc] at hidle
    cases hidle
  · have hest := h.established (hg.2 htype htoken)
    refine ⟨fun _ => ⟨hest.keyed, hest.expectedPeer, hest.connection, hest.challengedBy⟩,
      h.current, fun hc => ?_⟩
    rcases hg.2 htype htoken with hp | hp <;> rcases h.unpaired hc with hq | hq <;>
      rw [hp] at hq <;> cases hq
  · exact ⟨by simp, h.current, fun _ => .inr rfl⟩
  · exact h

theorem Sequenced.step (h : Sequenced env s) {e : Event} (hg : InSequence env s e) :
    Sequenced env (s.step env e).1 := by
  cases e with
  | connectBegin hostIp pin onStatus =>
    simp only [ServiceManager.step]
    split_ifs
    · exact h
    · exact ⟨by simp, by simp, fun _ => .inl rfl⟩
  | connectEnd ok =>
    simp only [ServiceManager.step]
    split_ifs with hidle hok
    · exact h
    · refine ⟨fun hp => ?_, fun _ n hn => (Option.some.inj hn).symm, by simp⟩
      rcases h.unpaired (by simpa using hidle) with hq | hq <;> rcases hp with hp | hp <;>
        exact absurd (hq.symm.trans hp) (by simp)
    · exact ⟨by simp, by simp, by simp⟩
  | disconnectDevice => exact ⟨by simp [ServiceManager.step], by simp [ServiceManager.step],
      fun _ => .inr rfl⟩
  | controlLine message myKeys =>
    simp only [ServiceManager.step]
    split_ifs with hc
    · obtain ⟨n, hn⟩ := Option.isSome_iff_exists.mp hc
      exact h.controlLine hg hn
    · exact h
  | datagram source data =>
    simp only [ServiceManager.step, onDatagram]
    split_ifs
    · refine ⟨fun hp => ?_, h.current, h.unpaired⟩
      obtain ⟨⟨crypto, hc, hk, hr⟩, hpeer, hcon, hby⟩ := h.established hp
      exact ⟨⟨crypto, hc, hk, by simpa using hr⟩, hpeer, hcon, hby⟩
    · exact h

/-- In a run in sequence, the paired state keeps its promise. -/
theorem established_of_paired {events : List Event}
    (h : Machine.Guarded (step env) (InSequence env) {} events)
    (hp : (Machine.exec (step env) {} events).1.pairingState = .paired) :
    Established env (Machine.exec (step env) {} events).1 :=
  (h.invariant (I := Sequenced env) (P := fun _ => True)
    (fun _ _ hs hg => ⟨hs.step hg, fun _ _ => trivial⟩)
    ⟨by simp, by simp, by simp⟩).1.established (.inr hp)

def sampleChallenge : Text :=
  "\x7b".toList ++ jsonField "type".toList "pairing_challenge".toList ++ ",".toList ++
    jsonField "server_pubkey".toList (.replicate 32 (.ofNat 49)) ++ ",".toList ++
    quote :: "session_id".toList ++ quote :: ":7\x7d".toList

def sampleOk : Text :=
  "\x7b".toList ++ jsonField "type".toList "pairing_ok".toList ++ ",".toList ++
    jsonField "token".toList "t".toList ++ "\x7d".toList

def sampleKeys : KeyPair := ⟨.replicate 32 2, .replicate 32 3⟩

set_option maxRecDepth 100000 in
theorem established_of_paired_sample :
    Established .sample (Machine.exec (step .sample) {}
      [.connectBegin "10.0.0.2".toList "1234".toList true, .connectEnd true,
        .controlLine sampleChallenge sampleKeys, .controlLine sampleOk sampleKeys]).1 :=
  established_of_paired (by decide) (by decide)

set_option maxRecDepth 100000 in
/-- A `pairing_ok` in place of the challenge leads to the paired state without a key. -/
theorem not_established_without_challenge :
    let s := (Machine.exec (step .sample) {}
      [.connectBegin "10.0.0.2".toList "1234".toList true, .connectEnd true,
        .controlLine sampleOk sampleKeys]).1
    s.pairingState = .paired ∧ s.crypto = none ∧ ¬ Established .sample s := by
  refine ⟨by decide, by decide, fun h => ?_⟩
  obtain ⟨crypto, hcrypto, -⟩ := h.keyed
  exact Option.some_ne_none crypto (hcrypto.symm.trans (by decide))

end VeyraCam.ServiceManager
