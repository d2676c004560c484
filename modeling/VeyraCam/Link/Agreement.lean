import VeyraCam.Link.Phase
import VeyraCam.Phone.Sealing

/-! # Pairing agreement

Each move keeps the joint invariant: the PIN stays the one that was typed, and
the pairing is in some phase. Once the desktop is paired and the phone has not
left its loop, both have the same PIN, token and keys.
-/

namespace VeyraCam

namespace ServiceManager

variable {env : Platform} {s : ServiceManager}

/-- No line is read while a connection is being made. -/
def Settled (s : ServiceManager) : Prop := s.connection.isSome = true → s.connecting = false

theorem onTcpControlMessage_frame (s : ServiceManager) (message : Text) (myKeys : KeyPair) :
    (s.onTcpControlMessage env message myKeys).1.pin = s.pin ∧
      (s.onTcpControlMessage env message myKeys).1.connecting = s.connecting ∧
      (s.onTcpControlMessage env message myKeys).1.connection = s.connection := by
  rcases s.onTcpControlMessage_cases message myKeys with
    ⟨_, _, -, -, -, h⟩ | ⟨-, -, h⟩ | h | h <;> rw [h] <;> exact ⟨rfl, rfl, rfl⟩

/-- Only `ConnectDevice` sets a PIN, and only it begins to make a connection. -/
theorem step_frame (s : ServiceManager) {e : Event}
    (he : ∀ hostIp pin onStatus, e ≠ .connectBegin hostIp pin onStatus) :
    (s.step env e).1.pin = s.pin ∧ (s.Settled → (s.step env e).1.Settled) := by
  cases e with
  | connectBegin hostIp pin onStatus => exact absurd rfl (he hostIp pin onStatus)
  | connectEnd ok =>
    simp only [step]
    split_ifs
    · exact ⟨rfl, id⟩
    · exact ⟨rfl, fun _ _ => rfl⟩
    · exact ⟨rfl, fun _ _ => rfl⟩
  | disconnectDevice => exact ⟨rfl, fun _ h => by cases h⟩
  | controlLine message myKeys =>
    simp only [step]
    split_ifs
    · obtain ⟨hpin, hconnecting, hconnection⟩ := s.onTcpControlMessage_frame message myKeys
      refine ⟨hpin, fun h hc => ?_⟩
      rw [hconnection] at hc
      exact hconnecting.trans (h hc)
    · exact ⟨rfl, id⟩
  | datagram source data =>
    simp only [step, onDatagram]
    split_ifs <;> exact ⟨rfl, id⟩

theorem sentByDesktop_onDatagram (s : ServiceManager) (source : UInt32) (data : Bytes) :
    ∀ line ∈ ControlLink.sentByDesktop (s.onDatagram env source data).2,
      line = Command.requestIdr.message s.token := by
  intro line hline
  obtain ⟨output, houtput, hmessage⟩ := List.mem_filterMap.mp hline
  unfold onDatagram at houtput
  split_ifs at houtput
  · obtain ⟨callback, -, houtput⟩ := List.mem_flatMap.mp houtput
    cases callback with
    | frameReady frame origins =>
      obtain rfl := List.mem_singleton.mp houtput
      cases hmessage
    | missingKeyframe frameId =>
      simp only [onCallback] at houtput
      split_ifs at houtput
      · obtain rfl := List.mem_singleton.mp houtput
        exact (Option.some.inj hmessage).symm
      · cases houtput
  · cases houtput

end ServiceManager

namespace ControlLink

variable {env : Platform} {android : Android} {K M : Set KeyPair} {pin : Text}
  {l l' : ControlLink}

theorem noise_connectEnd (l : ControlLink) (ok : Bool) :
    Noise android l (l.step env android (.connectEnd ok)) := by
  have hsent : sentByDesktop (l.desktop.step env (.connectEnd ok)).2 = [] := by
    simp only [ServiceManager.step]
    split_ifs
    · rfl
    · exact ServiceManager.sentByDesktop_report _ _
    · exact ServiceManager.sentByDesktop_report _ _
  constructor
  · rfl
  · rfl
  · rfl
  · intro h
    simp only [step, desktopStep, ServiceManager.step]
    split_ifs
    · exact h
    · rfl
    · rfl
  · simp only [step, desktopStep, ServiceManager.step]
    split_ifs with hidle hok
    · exact .inl ⟨rfl, rfl, rfl, fun _ => rfl⟩
    · exact .inl ⟨rfl, rfl, rfl, fun h => absurd h (by simpa using hidle)⟩
    · exact .inr ⟨rfl, id, fun _ => rfl⟩
  · refine ⟨[], ?_, by simp⟩
    simp only [step, desktopStep]
    rw [hsent]
    simp

theorem noise_disconnectDevice (l : ControlLink) :
    Noise android l (l.step env android .disconnectDevice) :=
  ⟨rfl, rfl, rfl, id, .inr ⟨rfl, fun _ => rfl, fun _ => rfl⟩, [],
    by simp [step, desktopStep, ServiceManager.step, sentByDesktop], by simp⟩

theorem noise_datagram (hreads : android.ReadsJson) (l : ControlLink) (source : UInt32)
    (data : Bytes) : Noise android l (l.step env android (.datagram source data)) := by
  have hframe : (l.desktop.onDatagram env source data).1 =
      { l.desktop with reassembler := (l.desktop.onDatagram env source data).1.reassembler } := by
    unfold ServiceManager.onDatagram
    split_ifs <;> rfl
  constructor
  · rfl
  · rfl
  · rfl
  · simp only [step, desktopStep, ServiceManager.step]
    rw [hframe]
    exact id
  · left
    simp only [step, desktopStep, ServiceManager.step]
    rw [hframe]
    exact ⟨rfl, rfl, rfl, fun _ => rfl⟩
  · refine ⟨_, rfl, fun ht line hline => ?_⟩
    split_ifs at hline
    · rw [l.desktop.sentByDesktop_onDatagram source data line hline, ht]
      exact hreads.harmless .requestIdr
    · cases hline

theorem noise_command (hreads : android.ReadsJson) (l : ControlLink) (c : Command) :
    Noise android l (l.step env android (.command c)) := by
  simp only [step]
  split_ifs
  · refine ⟨rfl, rfl, rfl, id, .inl ⟨rfl, rfl, rfl, fun _ => rfl⟩, _, rfl, fun ht => ?_⟩
    rw [ht, List.forall_mem_singleton]
    exact hreads.harmless c
  · exact ⟨rfl, rfl, rfl, id, .inl ⟨rfl, rfl, rfl, fun _ => rfl⟩, [], by simp, by simp⟩

theorem quiet_send (android : Android) (p : Phone) (call : Send) :
    Quiet p (p.step android (.send call)).1 :=
  ⟨rfl, rfl, rfl, rfl, NativeSender.crypto_send android.lib p.context.sender call⟩

theorem sentByPhone_send (android : Android) (p : Phone) (call : Send) :
    sentByPhone (p.step android (.send call)).2 = [] := by
  rw [sentByPhone, List.filterMap_eq_nil_iff]
  intro output houtput
  obtain ⟨d, -, rfl⟩ := List.mem_map.mp houtput
  rfl

theorem phoneStep_single (android : Android) (l : ControlLink) (e : PhoneEvent) :
    l.phoneStep android [e] =
      { l with
        phone := (l.phone.step android e).1
        toDesktop := l.toDesktop ++ sentByPhone (l.phone.step android e).2 } := by
  simp [phoneStep]

theorem Phase.phoneStep_of_quiet (h : Phase env android K M pin l) {e : PhoneEvent}
    (hq : Quiet l.phone (l.phone.step android e).1)
    (hsent : sentByPhone (l.phone.step android e).2 = []) :
    Phase env android K M pin (l.phoneStep android [e]) := by
  rw [phoneStep_single, hsent, List.append_nil]
  exact h.quiet hq

theorem Phase.send (h : Phase env android K M pin l) (call : Send) :
    Phase env android K M pin (l.step env android (.send call)) :=
  h.phoneStep_of_quiet (quiet_send android l.phone call) (sentByPhone_send android l.phone call)

theorem Phase.tick (h : Phase env android K M pin l) (ms : ℕ) :
    Phase env android K M pin (l.step env android (.tick ms)) :=
  h.phoneStep_of_quiet ⟨rfl, rfl, rfl, rfl, rfl⟩ rfl

theorem Phase.phoneStep_of_idle (h : Phase env android K M pin l) {e : PhoneEvent}
    (he : l.phone.step android e = (l.phone, [])) :
    Phase env android K M pin (l.phoneStep android [e]) := by
  rw [phoneStep_single, he]
  simpa [sentByPhone] using h

theorem Phase.left_of_leaving (haccepted : l.accepted = true) {p : Phone}
    (hp : ∀ c, p.connection = some c → c.stage = .leaving) (toDesktop toPhone : List Text) :
    Phase env android K M pin { l with phone := p, toDesktop, toPhone } :=
  .left haccepted hp

theorem Phase.hangup (h : Phase env android K M pin l) :
    Phase env android K M pin (l.step env android .hangup) := by
  rcases h.phone_cases with ⟨hnone, -⟩ | ⟨⟨c, authenticated, hserves⟩, haccepted⟩ | ⟨hleaving, -⟩
  · apply h.phoneStep_of_idle
    simp only [Phone.step, hnone]
  · have hstep : l.phone.step android .hangup =
        ({ l.phone with connection := some { c with stage := .leaving } }, []) := by
      simp only [Phone.step, hserves.connection, if_pos hserves.reading]
    simp only [step]
    rw [phoneStep_single, hstep]
    apply Phase.left_of_leaving haccepted
    rintro _ ⟨⟩
    rfl
  · apply h.phoneStep_of_idle
    cases hc : l.phone.connection with
    | none => simp only [Phone.step, hc]
    | some c =>
      have hstage : c.stage ≠ .reading := by
        rw [hleaving c hc]
        exact Stage.noConfusion
      simp only [Phone.step, hc, if_neg hstage]

theorem Phase.leave (h : Phase env android K M pin l) :
    Phase env android K M pin (l.step env android .leave) := by
  rcases h.phone_cases with ⟨hnone, -⟩ | ⟨⟨c, authenticated, hserves⟩, -⟩ |
    ⟨hleaving, haccepted⟩
  · exact h.phoneStep_of_idle (Phone.step_proceed_of_none hnone false)
  · exact h.phoneStep_of_idle
      (Phone.step_proceed_of_reading hserves.connection hserves.reading false)
  · cases hc : l.phone.connection with
    | none => exact h.phoneStep_of_idle (Phone.step_proceed_of_none hc false)
    | some c =>
      simp only [step]
      rw [phoneStep_single, Phone.step_proceed hc, Phone.proceed, hleaving c hc]
      apply Phase.left_of_leaving haccepted
      rintro _ ⟨⟩

theorem Phase.accept (hcommon : Common env android K M) (h : Phase env android K M pin l)
    (clientIp : Text) (digits : List.Vector (Fin 10) PairingManager.pinLength) {keys : KeyPair}
    (hkeys : keys ∈ K) :
    Phase env android K M pin (l.step env android (.accept clientIp digits keys)) := by
  simp only [step]
  split_ifs with haccepted
  · exact h
  cases h with
  | waiting _ phone desktop toDesktop toPhone =>
    rw [phoneStep_single]
    have ht := @Phone.transition_step android l.phone (.accept clientIp digits keys)
    generalize hs : l.phone.step android (.accept clientIp digits keys) = result at ht
    obtain ⟨p, outputs⟩ := result
    cases ht with
    | idle | refuse =>
      apply Phase.left rfl
      intro c hc
      rw [show l.phone.connection = none from phone] at hc
      cases hc
    | accept =>
      refine .challenged rfl ⟨rfl, rfl, rfl⟩ ⟨rfl, PairingManager.isAscii_generatePin digits⟩
        hkeys desktop (.inr ⟨l.phone.context.sender.packetizer.sessionId, ?_⟩) toPhone
      rw [show l.toDesktop = [] from toDesktop, hcommon.lib_eq, hcommon.base64.base64Encode]
      rfl
  | challenged accepted | responded accepted | refused accepted | authenticated accepted
  | left accepted => exact absurd accepted haccepted

theorem desktopStep_controlLine (hc : l.desktop.connection.isSome = true) (line : Text)
    (myKeys : KeyPair) :
    l.desktopStep env (.controlLine line myKeys) =
      { l with
        desktop := (l.desktop.onTcpControlMessage env line myKeys).1
        toPhone := l.toPhone ++
          sentByDesktop (l.desktop.onTcpControlMessage env line myKeys).2 } := by
  have hstep : l.desktop.step env (.controlLine line myKeys) =
      l.desktop.onTcpControlMessage env line myKeys := if_pos hc
  simp only [desktopStep, hstep, hc, if_true]

theorem Phase.readChallenge (hcommon : Common env android K M)
    {typed : List.Vector (Fin 10) PairingManager.pinLength}
    (hpin : l.desktop.pin = PairingManager.generatePin typed) (hidle : l.desktop.connecting = false)
    {c : Connection} (accepted : l.accepted = true) (phone : Serves l.phone c false)
    (expects : Expects l.phone c) (keys : l.phone.context.pendingKeys ∈ K)
    (desktop : Unpaired l.desktop .awaitingChallenge) (toPhone : NoResponse android l)
    (sessionId : UInt32) {myKeys : KeyPair} (hm : myKeys ∈ M) :
    let line := Phone.pairingChallenge
      (Base64.encode l.phone.context.pendingKeys.publicKey.toList) sessionId
    Phase env android K M (PairingManager.generatePin typed)
      { l with
        desktop := (l.desktop.onTcpControlMessage env line myKeys).1
        toDesktop := []
        toPhone := l.toPhone ++
          sentByDesktop (l.desktop.onTcpControlMessage env line myKeys).2 } := by
  intro line
  rcases ServiceManager.onTcpControlMessage_challenge hcommon.base64 l.desktop
    l.phone.context.pendingKeys.publicKey sessionId myKeys with
    ⟨hstate, crypto, sessionId', hderived, heq⟩ | ⟨heq, hsent⟩
  · rw [heq]
    obtain ⟨field, hfield, -, hfieldPin, hfieldKey⟩ :=
      hcommon.reads.follows.response hcommon.base64 hpin myKeys
    have hsent : l.toPhone ++ sentByDesktop [.sendControlMessage
        (l.desktop.pairingResponse env myKeys)] =
          l.toPhone ++ l.desktop.pairingResponse env myKeys :: [] := rfl
    refine .responded accepted phone expects keys hm hderived ⟨.inl rfl, desktop.token⟩
      ⟨hidle, .inl rfl⟩ rfl hsent ⟨field, hfield, hfieldPin.trans hpin, hfieldKey⟩ ?_
    rw [List.append_nil]
    exact toPhone
  · rw [heq, hsent, List.append_nil]
    exact .challenged accepted phone expects keys desktop (.inl rfl) toPhone

theorem Phase.readByDesktop (hcommon : Common env android K M)
    {typed : List.Vector (Fin 10) PairingManager.pinLength}
    (hpin : l.desktop.pin = PairingManager.generatePin typed) (hsettled : l.desktop.Settled)
    (h : Phase env android K M (PairingManager.generatePin typed) l) {myKeys : KeyPair}
    (hm : myKeys ∈ M) :
    Phase env android K M (PairingManager.generatePin typed)
      (l.step env android (.readByDesktop myKeys)) := by
  simp only [step]
  cases hl : l.toDesktop with
  | nil => exact h
  | cons line rest =>
    dsimp only
    split_ifs with hopen
    swap
    · exact h
    rw [desktopStep_controlLine (l := { l with toDesktop := rest }) hopen]
    cases h with
    | waiting _ _ _ toDesktop | responded _ _ _ _ _ _ _ _ toDesktop =>
      rw [hl] at toDesktop
      cases toDesktop
    | challenged accepted phone expects keys desktop toDesktop toPhone =>
      rcases toDesktop with he | ⟨sessionId, he⟩ <;> rw [hl] at he
      · cases he
      · obtain ⟨rfl, rfl⟩ := List.cons.inj he
        exact Phase.readChallenge hcommon hpin (hsettled hopen) accepted phone expects keys desktop
          toPhone sessionId hm
    | refused accepted phone desktop toDesktop toPhone =>
      rw [hl] at toDesktop
      obtain ⟨hline, hrest⟩ := List.forall_mem_cons.mp toDesktop
      obtain ⟨heq, hsent⟩ := @ServiceManager.onTcpControlMessage_error env l.desktop _ hline myKeys
      rw [hsent, List.append_nil]
      rcases heq with heq | heq <;> rw [heq]
      · exact .refused accepted phone ⟨.inr rfl, desktop.token⟩ hrest toPhone
      · exact .refused accepted phone desktop hrest toPhone
    | authenticated accepted phone pin_eq authToken crypto_eq packetizer holds token toDesktop =>
      rw [hl] at toDesktop
      obtain ⟨rfl | rfl, hrest⟩ := List.forall_mem_cons.mp toDesktop
      · rw [ServiceManager.onTcpControlMessage_ok]
        exact .authenticated accepted phone pin_eq authToken crypto_eq packetizer
          ⟨holds.1, .inl (holds.crypto_eq (.inr hopen))⟩ (fun _ => rfl) hrest
      · rw [ServiceManager.onTcpControlMessage_capabilities]
        exact .authenticated accepted phone pin_eq authToken crypto_eq packetizer holds token hrest
    | left accepted phone => exact .left accepted phone

theorem not_isReading_of_leaving {phone : Phone}
    (h : ∀ c, phone.connection = some c → c.stage = .leaving) : isReading phone = false := by
  unfold isReading
  cases hc : phone.connection with
  | none => rfl
  | some c => simp [h c hc]

theorem readByPhone_of_not_isReading (hreading : isReading l.phone = false)
    (tokenBytes : FixedBytes 32) (socketOk : Bool) :
    l.step env android (.readByPhone tokenBytes socketOk) = l := by
  cases hl : l.toPhone with
  | nil => simp only [step, hl]
  | cons line rest => simp only [step, hl, hreading, Bool.false_eq_true, if_false]

theorem readByPhone_cons {line : Text} {rest : List Text} (hl : l.toPhone = line :: rest)
    {c : Connection} {authenticated : Bool} (hserves : Serves l.phone c authenticated)
    (tokenBytes : FixedBytes 32) (socketOk : Bool) :
    l.step env android (.readByPhone tokenBytes socketOk) =
      { l with
        phone := (l.phone.handle android line tokenBytes socketOk).1
        toDesktop := l.toDesktop ++
          sentByPhone (l.phone.handle android line tokenBytes socketOk).2
        toPhone := rest } := by
  have hreading : isReading l.phone = true := by
    simp [isReading, hserves.connection, hserves.reading]
  simp only [step, hl, hreading, if_true]
  rfl

theorem readByPhone_harmless {line : Text} {rest : List Text} (hl : l.toPhone = line :: rest)
    {c : Connection} (hserves : Serves l.phone c false) (hline : Harmless android line)
    (tokenBytes : FixedBytes 32) (socketOk : Bool) :
    l.step env android (.readByPhone tokenBytes socketOk) = { l with toPhone := rest } := by
  rw [readByPhone_cons hl hserves, Phone.handle_of_harmless hserves.connection hserves.reading
    hserves.authenticated_eq hline]
  simp [sentByPhone]

theorem mirror_of_completePairing (hcommon : Common env android K M)
    {context context' : NativeSenderContext} {myKeys : KeyPair} {crypto : SessionCrypto}
    (hkeys : context.pendingKeys ∈ K) (hm : myKeys ∈ M)
    (hderived : SessionCrypto.deriveSessionKeys env.lib false context.pendingKeys.publicKey
      myKeys.publicKey myKeys.privateKey = (true, crypto))
    (hk : context.completePairing android.lib (Base64.encode myKeys.publicKey.toList) =
      (context', true)) :
    ∃ crypto', context'.crypto = some crypto' ∧
      context'.sender.packetizer.crypto = some crypto' ∧ crypto = crypto'.mirror := by
  rcases @NativeSenderContext.completePairing_cases android.lib context
      (Base64.encode myKeys.publicKey.toList) with
    hk' | ⟨_, -, hk', -⟩ | ⟨clientPub, crypto', hpub, hserver, hk'⟩ <;> rw [hk'] at hk
  · cases hk
  · cases hk
  · obtain ⟨rfl, -⟩ := Prod.mk.inj hk
    rw [hcommon.lib_eq, hcommon.base64.base64Decode] at hpub
    obtain rfl := List.Vector.toList_injective hpub
    rw [hcommon.lib_eq] at hserver
    exact ⟨crypto', rfl, rfl, (SessionCrypto.mirrors_of_deriveSessionKeys
      (hcommon.agree _ hkeys _ hm) hserver hderived).1⟩

/-- The phone reads the response: it refuses it, or authenticates with the keys of the
desktop. -/
theorem Phase.readResponse (hcommon : Common env android K M) {c : Connection}
    (accepted : l.accepted = true) (phone : Serves l.phone c false) (expects : Expects l.phone c)
    (keys : l.phone.context.pendingKeys ∈ K) {myKeys : KeyPair} (hm : myKeys ∈ M)
    {crypto : SessionCrypto} (derived : SessionCrypto.deriveSessionKeys env.lib false
      l.phone.context.pendingKeys.publicKey myKeys.publicKey myKeys.privateKey = (true, crypto))
    (desktop : Unpaired l.desktop .awaitingPairingOk) (holds : HoldsOrDropped l.desktop crypto)
    (toDesktop : l.toDesktop = []) {response : Text} {after : List Text}
    (isResponse : IsResponse android pin myKeys.publicKey response)
    (harmless : ∀ line ∈ after, Harmless android line) (tokenBytes : FixedBytes 32)
    (socketOk : Bool) :
    Phase env android K M pin
      { l with
        phone := (l.phone.handle android response tokenBytes socketOk).1
        toDesktop := l.toDesktop ++
          sentByPhone (l.phone.handle android response tokenBytes socketOk).2
        toPhone := after } := by
  obtain ⟨field, hfield, hpin, hkey⟩ := isResponse
  rw [toDesktop, List.nil_append]
  have hhandled : Phone.Handled android l.phone c response tokenBytes _ _ :=
    Phone.handled phone.connection phone.reading phone.authenticated_eq response tokenBytes socketOk
  generalize l.phone.handle android response tokenBytes socketOk = result at hhandled
  obtain ⟨p, outputs⟩ := result
  cases hhandled with
  | refused connection errors =>
    rcases connection with hnone | hsome
    · apply Phase.left_of_leaving accepted
      intro c' hc'
      rw [show p.connection = none from hnone] at hc'
      cases hc'
    · exact .refused accepted ⟨hsome, phone.reading, phone.authenticated_eq⟩ desktop errors
        harmless
  | @authenticated field' expected context _ _ responds currentPin matched completed connection
      crypto_eq packetizer token sent =>
    obtain rfl := Option.some.inj (hfield.symm.trans responds.parsed)
    rw [hkey] at completed
    obtain ⟨crypto', hcontext, hpacketizer, rfl⟩ :=
      mirror_of_completePairing hcommon keys hm derived completed
    obtain rfl := Option.some.inj (currentPin.symm.trans expects.currentPin)
    have hpin' : c.pin = pin :=
      (PairingManager.eq_of_asciiBytes_eq expects.ascii matched).symm.trans hpin
    refine .authenticated accepted ⟨connection, phone.reading, rfl⟩ hpin' token
      (crypto_eq.trans hcontext) ?_ holds ?_ ?_
    · exact (congrArg (·.packetizer.crypto) packetizer).trans hpacketizer
    · intro hpaired
      rcases desktop.state with hs | hs <;> rw [hpaired] at hs <;> cases hs
    · intro line hline
      rw [show sentByPhone outputs = _ from sent] at hline
      exact .inl (List.mem_singleton.mp hline)

theorem Phase.readByPhone (hcommon : Common env android K M) (h : Phase env android K M pin l)
    (tokenBytes : FixedBytes 32) (socketOk : Bool) :
    Phase env android K M pin (l.step env android (.readByPhone tokenBytes socketOk)) := by
  cases hl : l.toPhone with
  | nil =>
    simp only [step, hl]
    exact h
  | cons line rest =>
    cases h with
    | waiting accepted phone desktop toDesktop toPhone =>
      have hreading : isReading l.phone = false := by
        simp [isReading, phone]
      rw [readByPhone_of_not_isReading hreading]
      exact .waiting accepted phone desktop toDesktop toPhone
    | challenged accepted phone expects keys desktop toDesktop toPhone =>
      rw [NoResponse, hl, List.forall_mem_cons] at toPhone
      rw [readByPhone_harmless hl phone toPhone.1]
      exact .challenged accepted phone expects keys desktop toDesktop toPhone.2
    | @responded c myKeys crypto before response after accepted phone expects keys hm derived
        desktop holds toDesktop toPhone isResponse harmless =>
      rw [hl] at toPhone
      cases before with
      | nil =>
        obtain ⟨rfl, rfl⟩ := List.cons.inj toPhone
        rw [readByPhone_cons hl phone]
        exact Phase.readResponse hcommon accepted phone expects keys hm derived desktop holds
          toDesktop isResponse harmless tokenBytes socketOk
      | cons first before =>
        obtain ⟨rfl, rfl⟩ := List.cons.inj toPhone
        rw [List.cons_append, List.forall_mem_cons] at harmless
        rw [readByPhone_harmless hl phone harmless.1]
        exact .responded accepted phone expects keys hm derived desktop holds toDesktop rfl
          isResponse harmless.2
    | refused accepted phone desktop toDesktop toPhone =>
      rw [NoResponse, hl, List.forall_mem_cons] at toPhone
      rw [readByPhone_harmless hl phone toPhone.1]
      exact .refused accepted phone desktop toDesktop toPhone.2
    | authenticated accepted phone pin_eq authToken crypto_eq packetizer holds token toDesktop =>
      obtain ⟨hsame, hlines⟩ := @Phone.handle_of_authenticated android _ _ phone.connection
        phone.reading phone.authenticated_eq line tokenBytes socketOk
      rw [readByPhone_cons hl phone, hsame]
      refine .authenticated accepted phone pin_eq authToken crypto_eq packetizer holds token ?_
      exact List.forall_mem_append.mpr ⟨toDesktop, fun line hline => .inr (hlines line hline)⟩
    | left accepted phone =>
      rw [readByPhone_of_not_isReading (not_isReading_of_leaving phone)]
      exact .left accepted phone

structure Agrees (env : Platform) (android : Android) (K M : Set KeyPair)
    (typed : List.Vector (Fin 10) PairingManager.pinLength) (l : ControlLink) : Prop where
  pin : l.desktop.pin = PairingManager.generatePin typed
  settled : l.desktop.Settled
  phase : Phase env android K M (PairingManager.generatePin typed) l

variable {typed : List.Vector (Fin 10) PairingManager.pinLength}

theorem desktop_step (l : ControlLink) (move : Move) :
    (l.step env android move).desktop = l.desktop ∨
      ∃ e, (∀ hostIp pin onStatus, e ≠ .connectBegin hostIp pin onStatus) ∧
        (l.step env android move).desktop = (l.desktop.step env e).1 := by
  cases move with
  | connectEnd ok => exact .inr ⟨.connectEnd ok, by simp, rfl⟩
  | disconnectDevice => exact .inr ⟨.disconnectDevice, by simp, rfl⟩
  | datagram source data => exact .inr ⟨.datagram source data, by simp, rfl⟩
  | command c =>
    left
    simp only [step]
    split_ifs <;> rfl
  | readByDesktop myKeys =>
    simp only [step]
    split
    · exact .inl rfl
    · next line rest hl =>
      split_ifs
      · exact .inr ⟨.controlLine line myKeys, by simp, rfl⟩
      · exact .inl rfl
  | accept clientIp digits keys =>
    left
    simp only [step]
    split_ifs <;> rfl
  | readByPhone tokenBytes socketOk =>
    left
    simp only [step]
    split
    · rfl
    · split_ifs <;> rfl
  | hangup | leave | send | tick => exact .inl rfl

theorem Agrees.step (hcommon : Common env android K M) (h : Agrees env android K M typed l)
    {move : Move} (hm : move.Draws K M) :
    Agrees env android K M typed (l.step env android move) := by
  obtain ⟨hpin, hsettled⟩ : (l.step env android move).desktop.pin = l.desktop.pin ∧
      (l.desktop.Settled → (l.step env android move).desktop.Settled) := by
    rcases @desktop_step env android l move with he | ⟨e, he, heq⟩
    · rw [he]
      exact ⟨rfl, id⟩
    · rw [heq]
      exact l.desktop.step_frame he
  refine ⟨hpin.trans h.pin, hsettled h.settled, ?_⟩
  cases move with
  | connectEnd ok => exact h.phase.noise (l.noise_connectEnd ok)
  | disconnectDevice => exact h.phase.noise l.noise_disconnectDevice
  | datagram source data => exact h.phase.noise (noise_datagram hcommon.reads l source data)
  | command c => exact h.phase.noise (noise_command hcommon.reads l c)
  | readByDesktop myKeys => exact h.phase.readByDesktop hcommon h.pin h.settled hm
  | accept clientIp digits keys => exact h.phase.accept hcommon clientIp digits hm
  | readByPhone tokenBytes socketOk => exact h.phase.readByPhone hcommon tokenBytes socketOk
  | hangup => exact h.phase.hangup
  | leave => exact h.phase.leave
  | send call => exact h.phase.send call
  | tick ms => exact h.phase.tick ms

theorem agrees_start {desktop : ServiceManager} {phone : Phone}
    (hidle : desktop.connecting = false) (hclosed : desktop.connection = none)
    (hphone : phone.connection = none) (hostIp : Text) (onStatus : Bool) :
    Agrees env android K M typed (start env desktop phone hostIp typed onStatus) := by
  have hstep : desktop.step env (.connectBegin hostIp (PairingManager.generatePin typed) onStatus) =
      ({ desktop with
          pin := PairingManager.generatePin typed
          hostIp
          token := []
          crypto := none
          pairingState := .awaitingChallenge
          statusCallback := onStatus
          connecting := true
          attempt := desktop.attempt + 1 }, []) := by
    simp only [ServiceManager.step, hidle, Bool.false_eq_true, if_false]
  unfold start
  rw [hstep]
  constructor
  · rfl
  · intro hc
    rw [show desktop.connection = none from hclosed] at hc
    cases hc
  · exact .waiting rfl hphone ⟨.inl rfl, rfl⟩ rfl (List.forall_mem_nil _)

theorem Agrees.run (hcommon : Common env android K M) (h : Agrees env android K M typed l)
    {moves : List Move} (hm : ∀ move ∈ moves, move.Draws K M) :
    Agrees env android K M typed (l.run env android moves) := by
  induction moves generalizing l with
  | nil => exact h
  | cons move moves ih =>
    obtain ⟨hmove, hmoves⟩ := List.forall_mem_cons.mp hm
    exact ih (h.step hcommon hmove) hmoves

/-- In every run of one control connection, a paired desktop and a phone in its loop agree on
the PIN, the token and the keys. -/
theorem pairing_agreement (hcommon : Common env android K M) {desktop : ServiceManager}
    {phone : Phone}
    (hidle : desktop.connecting = false) (hclosed : desktop.connection = none)
    (hphone : phone.connection = none) {hostIp : Text} {onStatus : Bool} {moves : List Move}
    (hm : ∀ move ∈ moves, move.Draws K M) {c : Connection} :
    let l := run env android (start env desktop phone hostIp typed onStatus) moves
    l.desktop.pairingState = .paired → l.phone.connection = some c → c.stage ≠ .leaving →
      c.authenticated = true ∧ l.desktop.pin = c.pin ∧
      l.phone.pairingManager.authToken = some (unescape l.desktop.token) ∧
      ∃ pc dc, l.phone.context.sender.packetizer.crypto = some pc ∧
        l.phone.context.crypto = some pc ∧ l.desktop.crypto = some dc ∧
        dc.rxKey = pc.txKey ∧ dc.rxSalt = pc.txSalt ∧
        dc.txKey = pc.rxKey ∧ dc.txSalt = pc.rxSalt := by
  intro l hpaired hc hstage
  have h : Agrees env android K M typed l :=
    (agrees_start hidle hclosed hphone hostIp onStatus).run hcommon hm
  have hne {state : PairingState} (hs : state ≠ .paired) (hd : Unpaired l.desktop state) :
      False := by
    rcases hd.state with he | he <;> rw [hpaired] at he
    · exact hs he.symm
    · cases he
  cases h.phase with
  | waiting _ _ hd | challenged _ _ _ _ hd | responded _ _ _ _ _ _ hd | refused _ _ hd =>
    exact absurd (hne (by simp) hd) id
  | authenticated _ phone pin_eq authToken crypto_eq packetizer holds token _ =>
    obtain rfl := Option.some.inj (hc.symm.trans phone.connection)
    refine ⟨phone.authenticated_eq, h.pin.trans pin_eq.symm, ?_,
      _, _, packetizer, crypto_eq, holds.crypto_eq (.inl ?_), rfl, rfl, rfl, rfl⟩
    · rw [authToken, token hpaired, unescape_escape]
    · rw [hpaired]
      simp
  | left _ hleaving => exact absurd (hleaving c hc) hstage

def samplePairing : ControlLink :=
  run .standard .json
    (start .standard {} (.create 7) "10.0.0.2".toList PairingManager.zeroDigits true)
    [.connectEnd true, .accept "10.0.0.9".toList PairingManager.zeroDigits (.sample 3),
      .readByDesktop (.sample 5), .readByPhone (.replicate 32 1) true, .readByDesktop (.sample 5)]

theorem common_json : Common .standard .json {KeyPair.sample 3} {KeyPair.sample 5} where
  lib_eq := rfl
  base64 := Mbedtls.standard_base64Standard
  reads := Android.json_readsJson
  agree := by
    rintro keys rfl myKeys rfl
    rfl

set_option maxRecDepth 100000 in
theorem pairing_agreement_sample :
    samplePairing.phone.pairingManager.authToken =
      some (unescape samplePairing.desktop.token) := by
  obtain ⟨c, hc, hstage⟩ : ∃ c, samplePairing.phone.connection = some c ∧ c.stage ≠ .leaving :=
    ⟨_, rfl, by decide⟩
  exact (pairing_agreement common_json rfl rfl rfl
    (by simp [Move.Draws]) (by decide) hc hstage).2.2.1

end ControlLink

end VeyraCam
