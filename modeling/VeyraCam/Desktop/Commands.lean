import VeyraCam.Desktop.Pairing

/-! # Commands of the desktop

The setters send a command whenever `isStreaming_` is set, and the command
carries the token that there is. `DisconnectDevice` and a `pairing_error` clear
the flag, but `ConnectDevice` does not: a reconnection begins, and ends, with
the flag of the connection before, and with its token if a `pairing_ok` of that
connection is read in between.
-/

namespace VeyraCam

theorem buildControlMessage_of_token {token : Text} (h : token ≠ []) (type payloadJson : Text) :
    ∃ rest, buildControlMessage token type payloadJson =
      "\x7b".toList ++ jsonField "type".toList type ++ ",".toList ++
        jsonField "auth_token".toList token ++ rest := by
  have hempty : token.isEmpty = false := by simpa using h
  unfold buildControlMessage
  rw [hempty]
  exact ⟨_, by simp only [List.append_assoc, Bool.false_eq_true, if_false]; rfl⟩

/-- The line that a setter or `RequestIdr` sends, if it does. -/
def ServiceManager.setterLine (s : ServiceManager) (type payloadJson : Text) : Option Text :=
  if s.isStreaming then some (buildControlMessage s.token type payloadJson) else none

def ServiceManager.TakesToken (s : ServiceManager) : Event → Prop
  | .controlLine message _ =>
    s.connection.isSome = true ∧ extractJsonString message "type".toList = "pairing_ok".toList ∧
      (extractJsonString message "token".toList).isEmpty = false
  | _ => False

instance (s : ServiceManager) : DecidablePred s.TakesToken
  | .controlLine _ _ => inferInstanceAs (Decidable (_ ∧ _ ∧ _))
  | .connectBegin _ _ _ | .connectEnd _ | .disconnectDevice | .datagram _ _ => isFalse id

/-- A connection has the number of a call that has returned. -/
def ServiceManager.Numbered (s : ServiceManager) : Prop :=
  ∀ n, s.connection = some n → n ≤ s.attempt ∧ (s.connecting = true → n < s.attempt)

theorem ServiceManager.Numbered.step {env : Platform} {s : ServiceManager} (h : s.Numbered)
    (e : Event) : (s.step env e).1.Numbered := by
  cases e with
  | connectBegin hostIp pin onStatus =>
    rw [ServiceManager.step]
    split_ifs with hconnecting
    · exact h
    · exact fun n hn => ⟨(h n hn).1.trans (Nat.le_succ _), fun _ => Nat.lt_succ_of_le (h n hn).1⟩
  | connectEnd ok =>
    rw [ServiceManager.step]
    split_ifs with hidle hok
    · exact h
    · rintro n hn
      obtain rfl := Option.some.inj hn
      exact ⟨le_rfl, fun hconnecting => by cases hconnecting⟩
    · rintro n hn
      cases hn
  | disconnectDevice =>
    rintro n hn
    cases hn
  | controlLine message myKeys =>
    rw [ServiceManager.step]
    split_ifs
    · rcases @onTcpControlMessage_cases env s message myKeys with
        ⟨crypto, sessionId, -, -, -, hs⟩ | ⟨-, -, hs⟩ | hs | hs <;> rw [hs] <;> exact h
    · exact h
  | datagram source data =>
    rw [ServiceManager.step, onDatagram]
    split_ifs <;> exact h

/-- A service manager, with the connection that its token came on. -/
structure TokenHistory where
  manager : ServiceManager := {}
  tokenFrom : Option ℕ := none

namespace TokenHistory

def step (env : Platform) (s : TokenHistory) (e : Event) : TokenHistory × List Output :=
  let (manager, outputs) := s.manager.step env e
  ({ manager
     tokenFrom := if s.manager.TakesToken e then s.manager.connection else s.tokenFrom }, outputs)

/-- Commands are sent in the paired state only, and with the token of the connection. -/
def SendsPaired (s : TokenHistory) : Prop :=
  s.manager.isStreaming = true → s.manager.pairingState = .paired ∧ s.manager.token ≠ [] ∧
    ∃ n, s.manager.connection = some n ∧ s.tokenFrom = some n

/-- `ConnectDevice` is not called, and its connection is not made and does not fail, while the
flag is set. -/
def ConnectsIdle (s : TokenHistory) : Event → Prop
  | .connectBegin _ _ _ => s.manager.connecting = false → s.manager.isStreaming = false
  | .connectEnd _ => s.manager.connecting = true → s.manager.isStreaming = false
  | _ => True

variable {env : Platform} {s : TokenHistory}

/-- The history does not change what the manager does. -/
theorem exec_manager (env : Platform) (s : TokenHistory) (events : List Event) :
    (Machine.exec (step env) s events).1.manager =
        (Machine.exec (ServiceManager.step env) s.manager events).1 ∧
      (Machine.exec (step env) s events).2 =
        (Machine.exec (ServiceManager.step env) s.manager events).2 := by
  induction events generalizing s with
  | nil => exact ⟨rfl, rfl⟩
  | cons e events ih =>
    obtain ⟨hmanager, houtputs⟩ := ih (s.step env e).1
    exact ⟨hmanager, congrArg ((s.manager.step env e).2 ++ ·) houtputs⟩

theorem step_of_not_takesToken {e : Event} (h : ¬ s.manager.TakesToken e) :
    (s.step env e).1 = { s with manager := (s.manager.step env e).1 } := by
  unfold step
  dsimp only
  rw [if_neg h]

theorem SendsPaired.setterLine (h : s.SendsPaired) {type payloadJson line : Text}
    (hline : line ∈ s.manager.setterLine type payloadJson) :
    s.manager.pairingState = .paired ∧ s.tokenFrom.isSome = true ∧
      s.tokenFrom = s.manager.connection ∧
      ∃ rest, line = "\x7b".toList ++ jsonField "type".toList type ++ ",".toList ++
        jsonField "auth_token".toList s.manager.token ++ rest := by
  unfold ServiceManager.setterLine at hline
  split_ifs at hline with hstreaming
  · obtain rfl := Option.some.inj hline
    obtain ⟨hpaired, htoken, n, hconnection, hfrom⟩ := h hstreaming
    exact ⟨hpaired, by rw [hfrom]; rfl, hfrom.trans hconnection.symm,
      buildControlMessage_of_token htoken type payloadJson⟩
  · cases hline

theorem sendsPaired_of_idle (h : s.manager.isStreaming = false) : s.SendsPaired := by
  intro hstreaming
  cases h.symm.trans hstreaming

theorem SendsPaired.controlLine (h : s.SendsPaired) (message : Text) (myKeys : KeyPair) :
    (s.step env (.controlLine message myKeys)).1.SendsPaired := by
  rw [step, ServiceManager.step]
  cases hconnection : s.manager.connection with
  | none =>
    refine sendsPaired_of_idle ?_
    by_contra hstreaming
    obtain ⟨-, -, n, hn, -⟩ := h (by simpa [hconnection] using hstreaming)
    cases hconnection.symm.trans hn
  | some n =>
    rw [if_pos (by rfl)]
    dsimp only
    rcases @ServiceManager.onTcpControlMessage_cases env s.manager message myKeys with
      ⟨crypto, sessionId, -, hstate, -, hs⟩ | ⟨htype, htoken, hs⟩ | hs | hs <;> rw [hs]
    · intro hstreaming
      cases hstate.symm.trans (h hstreaming).1
    · intro _
      have htakes : s.manager.TakesToken (.controlLine message myKeys) :=
        ⟨by rw [hconnection]; rfl, htype, htoken⟩
      exact ⟨rfl, by simpa using htoken, n, hconnection, if_pos htakes⟩
    · exact sendsPaired_of_idle rfl
    · intro hstreaming
      obtain ⟨hpaired, htoken, m, hm, hfrom⟩ := h hstreaming
      refine ⟨hpaired, htoken, n, hconnection, ?_⟩
      dsimp only
      rw [hfrom, ← hm, hconnection, ite_self]

theorem SendsPaired.step_iff (h : s.SendsPaired) (hn : s.manager.Numbered) (e : Event) :
    (s.step env e).1.SendsPaired ↔ s.ConnectsIdle e := by
  cases e with
  | connectBegin hostIp pin onStatus =>
    rw [step_of_not_takesToken id, ServiceManager.step, ConnectsIdle]
    split_ifs with hconnecting
    · exact iff_of_true h fun hidle => absurd hidle (by simp [hconnecting])
    · constructor
      · intro hpaired _
        by_contra hstreaming
        cases (hpaired (by simpa using hstreaming)).1
      · intro hidle
        exact sendsPaired_of_idle (hidle (by simpa using hconnecting))
  | connectEnd ok =>
    rw [step_of_not_takesToken id, ServiceManager.step, ConnectsIdle]
    split_ifs with hidle hok
    · exact iff_of_true h fun hconnecting => absurd hconnecting (by simpa using hidle)
    · constructor
      · -- the token is the one of an earlier connection
        intro hpaired hconnecting
        by_contra hstreaming
        have hstreaming : s.manager.isStreaming = true := by simpa using hstreaming
        obtain ⟨-, -, m, hm, hfrom⟩ := h hstreaming
        obtain ⟨-, -, n, hnew, hfrom'⟩ := hpaired hstreaming
        obtain rfl := Option.some.inj (hfrom.symm.trans hfrom')
        obtain rfl := Option.some.inj hnew
        exact lt_irrefl _ ((hn _ hm).2 hconnecting)
      · intro hnone
        exact sendsPaired_of_idle (hnone (by simpa using hidle))
    · constructor
      · intro hpaired _
        by_contra hstreaming
        cases (hpaired (by simpa using hstreaming)).1
      · intro hfails
        exact sendsPaired_of_idle (hfails (by simpa using hidle))
  | disconnectDevice => exact iff_of_true (sendsPaired_of_idle rfl) trivial
  | controlLine message myKeys => exact iff_of_true (h.controlLine message myKeys) trivial
  | datagram source data =>
    refine iff_of_true ?_ trivial
    rw [step_of_not_takesToken id, ServiceManager.step, ServiceManager.onDatagram]
    split_ifs <;> exact h

/-- In a run from the construction on, `ConnectDevice` is only called, and only makes its
connection or fails, while `isStreaming_` is not set exactly when, in every state that is reached,
commands are sent in the paired state only and with the token of the connection. -/
theorem sendsPaired_iff_connectsIdle (env : Platform) (events : List Event) :
    Machine.Guarded (step env) ConnectsIdle {} events ↔
      ∀ pre, pre <+: events → (Machine.exec (step env) {} pre).1.SendsPaired := by
  refine Machine.guarded_iff_forall_reached (I := fun s => s.SendsPaired ∧ s.manager.Numbered)
    ?_ ?_ ?_ ?_ _
  · exact fun s e h he => ⟨(h.1.step_iff h.2 e).mpr he, h.2.step e⟩
  · exact fun s h => h.1
  · exact fun s e h he => (h.1.step_iff h.2 e).mp he
  · refine ⟨sendsPaired_of_idle rfl, ?_⟩
    rintro n hn
    cases hn

set_option maxRecDepth 100000 in
/-- On a second connection a command is sent without a token. -/
theorem not_sendsPaired_reconnect :
    let s := (Machine.exec (step .sample) {}
      [.connectBegin "10.0.0.2".toList "1234".toList true, .connectEnd true,
        .controlLine ServiceManager.sampleChallenge ServiceManager.sampleKeys,
        .controlLine ServiceManager.sampleOk ServiceManager.sampleKeys,
        .connectBegin "10.0.0.2".toList "1234".toList true, .connectEnd true]).1
    ¬ s.SendsPaired ∧ s.manager.setterLine "requestIdr".toList [] =
      some ("\x7b".toList ++ jsonField "type".toList "requestIdr".toList ++ "\x7d".toList) := by
  refine ⟨fun h => ?_, by decide⟩
  exact absurd (h (by decide)).1 (by decide)

set_option maxRecDepth 100000 in
-- A `pairing_ok` that is read while the second connection is made leaves its token to it.
example :
    let s := (Machine.exec (step .sample) {}
      [.connectBegin "10.0.0.2".toList "1234".toList true, .connectEnd true,
        .connectBegin "10.0.0.2".toList "1234".toList true,
        .controlLine ServiceManager.sampleOk ServiceManager.sampleKeys, .connectEnd true]).1
    s.manager.isStreaming = true ∧ s.manager.connection = some 2 ∧ s.tokenFrom = some 1 := by
  decide

end TokenHistory

end VeyraCam
