import VeyraCam.Crypto.KeyExchange
import VeyraCam.Link.Lines

/-! # Handling a line

What either side does with one line of a control link, and which lines it sends
in answer.
-/

namespace VeyraCam

open ControlLink

namespace Phone

variable {android : Android} {s : Phone} {c : Connection}

/-- A line from `readLine` to the next `readLine`. -/
def handle (android : Android) (s : Phone) (text : Text) (tokenBytes : FixedBytes 32)
    (socketOk : Bool) : Phone × List PhoneOutput :=
  Machine.exec (step android) s [.line text tokenBytes, .proceed socketOk, .proceed socketOk]

theorem step_proceed (hc : s.connection = some c) (socketOk : Bool) :
    s.step android (.proceed socketOk) = s.proceed android c socketOk := by
  simp only [step, hc]

theorem step_proceed_of_none (hc : s.connection = none) (socketOk : Bool) :
    s.step android (.proceed socketOk) = (s, []) := by
  simp only [step, hc]

theorem step_proceed_of_reading (hc : s.connection = some c) (hr : c.stage = .reading)
    (socketOk : Bool) : s.step android (.proceed socketOk) = (s, []) := by
  rw [step_proceed hc, proceed, hr]

theorem handle_of_line {text : Text} {tokenBytes : FixedBytes 32} {s' : Phone}
    {outputs : List PhoneOutput} (hs : s.step android (.line text tokenBytes) = (s', outputs))
    (socketOk : Bool) : s.handle android text tokenBytes socketOk =
      ((Machine.exec (step android) s' [.proceed socketOk, .proceed socketOk]).1,
        outputs ++ (Machine.exec (step android) s' [.proceed socketOk, .proceed socketOk]).2) := by
  rw [handle, Machine.exec_cons, hs]

theorem handle_of_reading {text : Text} {tokenBytes : FixedBytes 32} {s' : Phone}
    {outputs : List PhoneOutput} (hs : s.step android (.line text tokenBytes) = (s', outputs))
    (hc : s'.connection = some c) (hr : c.stage = .reading) (socketOk : Bool) :
    s.handle android text tokenBytes socketOk = (s', outputs) := by
  rw [handle_of_line hs, Machine.exec_cons, step_proceed_of_reading hc hr, Machine.exec_cons,
    step_proceed_of_reading hc hr, Machine.exec_nil]
  simp only [List.append_nil]

theorem exec_proceed_of_failed {clientPubKey : Text} {context : NativeSenderContext}
    (hc : s.connection = some c) (hstage : c.stage = .completing clientPubKey)
    (hk : s.context.completePairing android.lib clientPubKey = (context, false))
    (socketOk : Bool) :
    Machine.exec (step android) s [.proceed socketOk, .proceed socketOk] =
      ({ s with context, connection := some { c with stage := .reading } },
        [.pairingFailed "key_derivation_failed".toList,
          .message (pairingError "invalid_key")]) := by
  have hfirst : s.step android (.proceed socketOk) =
      ({ s with context, connection := some { c with stage := .reading } },
        [.pairingFailed "key_derivation_failed".toList,
          .message (pairingError "invalid_key")]) := by
    rw [step_proceed hc, proceed, hstage]
    dsimp only
    rw [hk]
    rfl
  rw [Machine.exec_cons, hfirst, Machine.exec_cons, step_proceed_of_reading rfl rfl]
  rfl

theorem exec_proceed_of_completed {clientPubKey : Text} {context : NativeSenderContext}
    (hc : s.connection = some c) (hstage : c.stage = .completing clientPubKey)
    (hk : s.context.completePairing android.lib clientPubKey = (context, true))
    (socketOk : Bool) :
    Machine.exec (step android) s [.proceed socketOk, .proceed socketOk] =
      ({ s with
          context := (context.configureUdp android.inetPton c.clientIp udpMediaPort socketOk).1
          connection := some { c with authenticated := true, stage := .reading } },
        [.message (pairingOk s.pairingManager.authToken)]) := by
  have hfirst : s.step android (.proceed socketOk) =
      ({ s with
          context
          connection := some { c with authenticated := true, stage := .configuring } },
        [.message (pairingOk s.pairingManager.authToken)]) := by
    rw [step_proceed hc, proceed, hstage]
    dsimp only
    rw [hk]
    rfl
  rw [Machine.exec_cons, hfirst, Machine.exec_cons, step_proceed rfl]
  rfl

theorem exec_proceed_of_leaving (hc : s.connection = some c) (hstage : c.stage = .leaving)
    (socketOk : Bool) :
    Machine.exec (step android) s [.proceed socketOk, .proceed socketOk] =
      (onClientDisconnected { s with pairingManager := s.pairingManager.reset }, []) := by
  have hfirst : s.step android (.proceed socketOk) =
      (onClientDisconnected { s with pairingManager := s.pairingManager.reset }, []) := by
    rw [step_proceed hc, proceed, hstage]
  rw [Machine.exec_cons, hfirst, Machine.exec_cons, step_proceed_of_none rfl]
  rfl

def IsError (line : Text) : Prop := ∃ reason, line = pairingError reason

theorem errors_of_message (reason : String) :
    ∀ line ∈ sentByPhone [.message (pairingError reason)], IsError line := by
  intro line hline
  exact ⟨reason, List.mem_singleton.mp hline⟩

/-- What an unauthenticated phone makes of a line: it refuses it or authenticates. -/
inductive Handled (android : Android) (s : Phone) (c : Connection) (text : Text)
    (tokenBytes : FixedBytes 32) : Phone → List PhoneOutput → Prop
  | refused {s' outputs} (connection : s'.connection = none ∨ s'.connection = some c)
      (errors : ∀ line ∈ sentByPhone outputs, IsError line) :
      Handled android s c text tokenBytes s' outputs
  | authenticated {field expected context s' outputs} (responds : Responds android s c text field)
      (currentPin : s.pairingManager.currentPin = some expected)
      (matched : PairingManager.asciiBytes (field "pin".toList) =
        PairingManager.asciiBytes expected)
      (completed : s.context.completePairing android.lib (field "client_pubkey".toList) =
        (context, true))
      (connection : s'.connection = some { c with authenticated := true })
      (crypto : s'.context.crypto = context.crypto)
      (packetizer : s'.context.sender = context.sender)
      (token : s'.pairingManager.authToken = some (Base64.encode tokenBytes.toList))
      (sent : sentByPhone outputs = [pairingOk (some (Base64.encode tokenBytes.toList))]) :
      Handled android s c text tokenBytes s' outputs

theorem handled (hc : s.connection = some c) (hr : c.stage = .reading)
    (ha : c.authenticated = false) (text : Text) (tokenBytes : FixedBytes 32) (socketOk : Bool) :
    Handled android s c text tokenBytes (s.handle android text tokenBytes socketOk).1
      (s.handle android text tokenBytes socketOk).2 := by
  have ht := @transition_step android s (.line text tokenBytes)
  generalize hs : s.step android (.line text tokenBytes) = result at ht
  obtain ⟨s', outputs⟩ := result
  have hcon {c' : Connection} (hc' : s.connection = some c') : c' = c :=
    Option.some.inj (hc'.symm.trans hc)
  cases ht with
  | idle =>
    rw [handle_of_reading hs hc hr]
    exact .refused (.inr hc) (by simp [sentByPhone])
  | @verify c' text field tokenBytes expected hresponds hcompares hmatched hkey =>
    obtain rfl := hcon hresponds.connection
    let s₁ : Phone := { s with
      pairingManager := s.pairingManager.unlocked.succeed s.now tokenBytes
      connection := some { c' with stage := .completing (field "client_pubkey".toList) } }
    cases hk : s.context.completePairing android.lib (field "client_pubkey".toList) with
    | mk context completed =>
      cases completed with
      | false =>
        rw [handle_of_line hs, exec_proceed_of_failed (s := s₁) rfl rfl hk, List.nil_append]
        refine .refused (.inr ?_) (errors_of_message _)
        rw [← hr]
      | true =>
        obtain ⟨hcrypto, hsender⟩ :=
          NativeSenderContext.configureUdp_crypto android.inetPton context c'.clientIp udpMediaPort
            socketOk
        rw [handle_of_line hs, exec_proceed_of_completed (s := s₁) rfl rfl hk, List.nil_append]
        refine .authenticated hresponds hcompares.currentPin hmatched hk ?_ hcrypto hsender rfl rfl
        rw [← hr]
  | verifyWithoutKey =>
    rw [handle_of_reading hs hc hr]
    exact .refused (.inr hc) (errors_of_message _)
  | wrongPin =>
    rw [handle_of_reading hs hc hr]
    exact .refused (.inr hc) (errors_of_message _)
  | lockedOut =>
    rw [handle_of_line hs, exec_proceed_of_leaving rfl rfl, List.append_nil]
    exact .refused (.inl rfl) (errors_of_message _)
  | notAwaiting =>
    rw [handle_of_reading hs hc hr]
    exact .refused (.inr hc) (by simp [sentByPhone])
  | command hreads _ hauth _ =>
    obtain rfl := hcon hreads.connection
    rw [ha] at hauth
    cases hauth

theorem handle_of_harmless (hc : s.connection = some c) (hr : c.stage = .reading)
    (ha : c.authenticated = false) {text : Text} (hh : Harmless android text)
    (tokenBytes : FixedBytes 32) (socketOk : Bool) :
    s.handle android text tokenBytes socketOk = (s, []) := by
  have ht := @transition_step android s (.line text tokenBytes)
  generalize hs : s.step android (.line text tokenBytes) = result at ht
  obtain ⟨s', outputs⟩ := result
  cases ht with
  | idle => exact handle_of_reading hs hc hr socketOk
  | command hreads _ hauth _ =>
    obtain rfl := Option.some.inj (hreads.connection.symm.trans hc)
    rw [ha] at hauth
    cases hauth
  | verify hresponds | verifyWithoutKey hresponds | wrongPin hresponds | lockedOut hresponds
  | notAwaiting hresponds => exact absurd hresponds.type (hh _ hresponds.parsed)

def capabilitiesMessage (android : Android) : Text :=
  jsonToString (("type".toList, .string "capabilities".toList) :: android.capabilities)

/-- An authenticated phone only answers with its capabilities. -/
theorem handle_of_authenticated (hc : s.connection = some c) (hr : c.stage = .reading)
    (ha : c.authenticated = true) (text : Text) (tokenBytes : FixedBytes 32) (socketOk : Bool) :
    (s.handle android text tokenBytes socketOk).1 = s ∧
      ∀ line ∈ sentByPhone (s.handle android text tokenBytes socketOk).2,
        line = capabilitiesMessage android := by
  have ht := @transition_step android s (.line text tokenBytes)
  generalize hs : s.step android (.line text tokenBytes) = result at ht
  obtain ⟨s', outputs⟩ := result
  have hauth {c' : Connection} (hc' : s.connection = some c') : c'.authenticated = true := by
    obtain rfl := Option.some.inj (hc'.symm.trans hc)
    exact ha
  cases ht with
  | idle =>
    rw [handle_of_reading hs hc hr]
    exact ⟨rfl, by simp [sentByPhone]⟩
  | command =>
    rw [handle_of_reading hs hc hr]
    refine ⟨rfl, fun line hline => ?_⟩
    unfold handleControlCommand at hline
    split_ifs at hline
    · exact List.mem_singleton.mp hline
    · cases hline
  | verify hresponds | verifyWithoutKey hresponds | wrongPin hresponds | lockedOut hresponds
  | notAwaiting hresponds =>
    exact absurd (hauth hresponds.connection) (by rw [hresponds.unauthenticated]; simp)

end Phone

namespace ServiceManager

variable {env : Platform} {s : ServiceManager}

theorem sentByDesktop_report (s : ServiceManager) (text : Text) :
    sentByDesktop (s.report text) = [] := by
  unfold report
  split_ifs <;> rfl

/-- What the desktop makes of a challenge: it takes it, with the key that the phone sent, or
nothing comes of it. -/
theorem onTcpControlMessage_challenge (hb : env.lib.Base64Standard) (s : ServiceManager)
    (key : FixedBytes 32) (sessionId : UInt32) (myKeys : KeyPair) :
    let line := Phone.pairingChallenge (Base64.encode key.toList) sessionId
    (s.pairingState = .awaitingChallenge ∧ ∃ crypto sessionId',
      SessionCrypto.deriveSessionKeys env.lib false key myKeys.publicKey myKeys.privateKey =
        (true, crypto) ∧
      s.onTcpControlMessage env line myKeys = (s.acceptChallenge env crypto sessionId',
        [.sendControlMessage (s.pairingResponse env myKeys)])) ∨
    ((s.onTcpControlMessage env line myKeys).1 = s ∧
      sentByDesktop (s.onTcpControlMessage env line myKeys).2 = []) := by
  intro line
  unfold onTcpControlMessage
  dsimp only
  rw [Phone.extractJsonString_type, if_pos rfl, Phone.extractJsonString_pairingChallenge]
  unfold handlePairingChallenge
  dsimp only
  split_ifs with hstate hempty hlen hfail
  · exact .inr ⟨rfl, rfl⟩
  · exact .inr ⟨rfl, sentByDesktop_report _ _⟩
  · exact .inr ⟨rfl, sentByDesktop_report _ _⟩
  · left
    have hslash : '/' ∉ Base64.encode key.toList := by
      intro hslash
      rw [hb.base64Decode_of_mem (backslash_mem_escape hslash (by decide))] at hlen
      cases hlen
    have hdecode : SessionCrypto.base64Decode env.lib (escape (Base64.encode key.toList)) =
        key.toList := by rw [escape_encode hslash, hb.base64Decode]
    have hpub : (⟨_, hlen⟩ : FixedBytes 32) = key := Subtype.ext hdecode
    rw [hpub] at hfail ⊢
    refine ⟨not_not.mp hstate, _, _, Prod.ext ?_ rfl, rfl⟩
    by_contra hok
    exact hfail (by rw [Bool.eq_false_iff.mpr hok]; rfl)
  · exact .inr ⟨rfl, sentByDesktop_report _ _⟩

theorem onTcpControlMessage_error (s : ServiceManager) {line : Text} (h : Phone.IsError line)
    (myKeys : KeyPair) :
    ((s.onTcpControlMessage env line myKeys).1 =
        { s with pairingState := .disconnected, isStreaming := false, crypto := none } ∨
      (s.onTcpControlMessage env line myKeys).1 = s) ∧
      sentByDesktop (s.onTcpControlMessage env line myKeys).2 = [] := by
  obtain ⟨reason, rfl⟩ := h
  have htype : extractJsonString (Phone.pairingError reason) "type".toList =
      "pairing_error".toList := extractJsonString_type (by decide) _
  unfold onTcpControlMessage
  dsimp only
  rw [htype, if_neg (by decide), if_neg (by decide), if_pos rfl]
  unfold handlePairingResult
  split_ifs with _ hempty
  · exact ⟨.inl rfl, sentByDesktop_report _ _⟩
  · exact ⟨.inr rfl, sentByDesktop_report _ _⟩
  · exact absurd rfl hempty

theorem onTcpControlMessage_ok (s : ServiceManager) (tokenBytes : FixedBytes 32)
    (myKeys : KeyPair) :
    (s.onTcpControlMessage env (Phone.pairingOk (some (Base64.encode tokenBytes.toList)))
      myKeys).1 =
      { s with
        token := escape (Base64.encode tokenBytes.toList)
        pairingState := .paired
        isStreaming := true } := by
  have htype : extractJsonString (Phone.pairingOk (some (Base64.encode tokenBytes.toList)))
      "type".toList = "pairing_ok".toList := extractJsonString_type (by decide) _
  have htoken : (escape (Base64.encode tokenBytes.toList)).isEmpty = false := by
    have hlength := Phone.length_escape_encode tokenBytes
    cases he : escape (Base64.encode tokenBytes.toList) with
    | nil => rw [he] at hlength; cases hlength
    | cons => rfl
  unfold onTcpControlMessage
  dsimp only
  rw [htype, if_neg (by decide), if_pos rfl, extractJsonString_pairingOk]
  unfold handlePairingResult
  simp only [List.isEmpty_nil, Bool.not_true, Bool.false_eq_true, if_false, htoken]

theorem onTcpControlMessage_capabilities (s : ServiceManager) (android : Android)
    (myKeys : KeyPair) :
    s.onTcpControlMessage env (Phone.capabilitiesMessage android) myKeys = (s, []) := by
  have htype : extractJsonString (Phone.capabilitiesMessage android) "type".toList =
      "capabilities".toList := extractJsonString_type (by decide) _
  unfold onTcpControlMessage
  dsimp only
  rw [htype, if_neg (by decide), if_neg (by decide), if_neg (by decide)]

end ServiceManager

end VeyraCam
