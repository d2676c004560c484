import VeyraCam.Link.Handling

/-! # The phases of a pairing

Four lines pair the two sides: the challenge, the response, and the token. A
phase says which of these lines is on its way and what each side holds by then.
What the sides do apart from their lines stays within the phase.
-/

namespace VeyraCam

/-- What both sides rely on: one mbedTLS with standard Base64 and keys that agree, and the
phone's JSON library. -/
structure Common (env : Platform) (android : Android) (K M : Set KeyPair) : Prop where
  lib_eq : android.lib = env.lib
  base64 : env.lib.Base64Standard
  reads : android.ReadsJson
  agree : ∀ keys ∈ K, ∀ myKeys ∈ M, env.lib.Agree keys myKeys

def Move.Draws (K M : Set KeyPair) : Move → Prop
  | .accept _ _ keys => keys ∈ K
  | .readByDesktop myKeys => myKeys ∈ M
  | _ => True

namespace ControlLink

variable {env : Platform} {android : Android} {K M : Set KeyPair} {pin : Text}
  {l l' : ControlLink}

structure Serves (p : Phone) (c : Connection) (authenticated : Bool) : Prop where
  connection : p.connection = some c
  reading : c.stage = .reading
  authenticated_eq : c.authenticated = authenticated

structure Expects (p : Phone) (c : Connection) : Prop where
  currentPin : p.pairingManager.currentPin = some c.pin
  ascii : PairingManager.IsAscii c.pin

/-- What the phone reads in a response. -/
def IsResponse (android : Android) (pin : Text) (key : FixedBytes 32) (line : Text) : Prop :=
  ∃ field, android.parseJson line = some field ∧ field "pin".toList = pin ∧
    field "client_pubkey".toList = Base64.encode key.toList

structure Unpaired (d : ServiceManager) (state : PairingState) : Prop where
  state : d.pairingState = state ∨ d.pairingState = .disconnected
  token : d.token = []

/-- The desktop holds the given keys, or has dropped the connection. -/
def HoldsOrDropped (d : ServiceManager) (crypto : SessionCrypto) : Prop :=
  d.connecting = false ∧
    (d.crypto = some crypto ∨ d.pairingState = .disconnected ∧ d.connection = none)

theorem HoldsOrDropped.crypto_eq {d : ServiceManager} {crypto : SessionCrypto}
    (h : HoldsOrDropped d crypto) (hd : d.pairingState ≠ .disconnected ∨ d.connection.isSome) :
    d.crypto = some crypto := by
  rcases h.2 with hcrypto | ⟨hstate, hnone⟩
  · exact hcrypto
  · rw [hnone] at hd
    simp [hstate] at hd

/-- No line on its way to the phone is taken for a response. -/
def NoResponse (android : Android) (l : ControlLink) : Prop :=
  ∀ line ∈ l.toPhone, Harmless android line

/-- How far a pairing has come, with the PIN that was typed on the desktop. -/
inductive Phase (env : Platform) (android : Android) (K M : Set KeyPair) (pin : Text)
    (l : ControlLink) : Prop
  | waiting (accepted : l.accepted = false) (phone : l.phone.connection = none)
      (desktop : Unpaired l.desktop .awaitingChallenge) (toDesktop : l.toDesktop = [])
      (toPhone : NoResponse android l)
  | challenged {c} (accepted : l.accepted = true) (phone : Serves l.phone c false)
      (expects : Expects l.phone c) (keys : l.phone.context.pendingKeys ∈ K)
      (desktop : Unpaired l.desktop .awaitingChallenge)
      (toDesktop : l.toDesktop = [] ∨ ∃ sessionId, l.toDesktop = [Phone.pairingChallenge
        (Base64.encode l.phone.context.pendingKeys.publicKey.toList) sessionId])
      (toPhone : NoResponse android l)
  | responded {c myKeys crypto before response after} (accepted : l.accepted = true)
      (phone : Serves l.phone c false) (expects : Expects l.phone c)
      (keys : l.phone.context.pendingKeys ∈ K) (myKeys_mem : myKeys ∈ M)
      (derived : SessionCrypto.deriveSessionKeys env.lib false
        l.phone.context.pendingKeys.publicKey myKeys.publicKey myKeys.privateKey = (true, crypto))
      (desktop : Unpaired l.desktop .awaitingPairingOk) (holds : HoldsOrDropped l.desktop crypto)
      (toDesktop : l.toDesktop = []) (toPhone : l.toPhone = before ++ response :: after)
      (isResponse : IsResponse android pin myKeys.publicKey response)
      (harmless : ∀ line ∈ before ++ after, Harmless android line)
  | refused {c} (accepted : l.accepted = true) (phone : Serves l.phone c false)
      (desktop : Unpaired l.desktop .awaitingPairingOk)
      (toDesktop : ∀ line ∈ l.toDesktop, Phone.IsError line) (toPhone : NoResponse android l)
  | authenticated {c crypto} {tokenBytes : FixedBytes 32} (accepted : l.accepted = true)
      (phone : Serves l.phone c true) (pin_eq : c.pin = pin)
      (authToken : l.phone.pairingManager.authToken = some (Base64.encode tokenBytes.toList))
      (crypto_eq : l.phone.context.crypto = some crypto)
      (packetizer : l.phone.context.sender.packetizer.crypto = some crypto)
      (holds : HoldsOrDropped l.desktop crypto.mirror)
      (token : l.desktop.pairingState = .paired →
        l.desktop.token = escape (Base64.encode tokenBytes.toList))
      (toDesktop : ∀ line ∈ l.toDesktop,
        line = Phone.pairingOk (some (Base64.encode tokenBytes.toList)) ∨
          line = Phone.capabilitiesMessage android)
  | left (accepted : l.accepted = true)
      (phone : ∀ c, l.phone.connection = some c → c.stage = .leaving)

/-- A change of the desktop that has nothing to do with the pairing, or drops it. -/
structure Noise (android : Android) (l l' : ControlLink) : Prop where
  phone : l'.phone = l.phone
  accepted : l'.accepted = l.accepted
  toDesktop : l'.toDesktop = l.toDesktop
  connecting : l.desktop.connecting = false → l'.desktop.connecting = false
  desktop : (l'.desktop.pairingState = l.desktop.pairingState ∧
      l'.desktop.crypto = l.desktop.crypto ∧ l'.desktop.token = l.desktop.token ∧
      (l.desktop.connecting = false → l'.desktop.connection = l.desktop.connection)) ∨
    (l'.desktop.pairingState = .disconnected ∧
      (l.desktop.token = [] → l'.desktop.token = []) ∧
      (l.desktop.connecting = false → l'.desktop.connection = none))
  sent : ∃ lines, l'.toPhone = l.toPhone ++ lines ∧
    (l.desktop.token = [] → ∀ line ∈ lines, Harmless android line)

theorem Unpaired.noise {state : PairingState} (h : Unpaired l.desktop state)
    (hn : Noise android l l') : Unpaired l'.desktop state := by
  rcases hn.desktop with ⟨hs, -, ht, -⟩ | ⟨hs, ht, -⟩
  · exact ⟨by rw [hs]; exact h.state, ht.trans h.token⟩
  · exact ⟨.inr hs, ht h.token⟩

theorem HoldsOrDropped.noise {crypto : SessionCrypto} (h : HoldsOrDropped l.desktop crypto)
    (hn : Noise android l l') : HoldsOrDropped l'.desktop crypto := by
  refine ⟨hn.connecting h.1, ?_⟩
  rcases hn.desktop with ⟨hs, hcrypto, -, hconnection⟩ | ⟨hs, -, hconnection⟩
  · rw [hcrypto, hs, hconnection h.1]
    exact h.2
  · exact .inr ⟨hs, hconnection h.1⟩

theorem NoResponse.noise {state : PairingState} (h : NoResponse android l)
    (hd : Unpaired l.desktop state) (hn : Noise android l l') : NoResponse android l' := by
  obtain ⟨lines, he, hlines⟩ := hn.sent
  rw [NoResponse, he, List.forall_mem_append]
  exact ⟨h, hlines hd.token⟩

theorem Phase.noise (h : Phase env android K M pin l) (hn : Noise android l l') :
    Phase env android K M pin l' := by
  have hphone := hn.phone
  have haccepted := hn.accepted
  have htoDesktop := hn.toDesktop
  cases h with
  | waiting accepted phone desktop toDesktop toPhone =>
    exact .waiting (haccepted.trans accepted) (hphone ▸ phone) (desktop.noise hn)
      (htoDesktop.trans toDesktop) (toPhone.noise desktop hn)
  | challenged accepted phone expects keys desktop toDesktop toPhone =>
    refine .challenged (haccepted.trans accepted) (hphone ▸ phone) (hphone ▸ expects)
      (hphone ▸ keys) (desktop.noise hn) ?_ (toPhone.noise desktop hn)
    rw [htoDesktop, hphone]
    exact toDesktop
  | @responded c myKeys crypto before response after accepted phone expects keys hm derived desktop
      holds toDesktop toPhone isResponse harmless =>
    obtain ⟨lines, he, hlines⟩ := hn.sent
    have hsent : l'.toPhone = before ++ response :: (after ++ lines) := by
      rw [he, toPhone, List.append_assoc, List.cons_append]
    refine .responded (haccepted.trans accepted) (hphone ▸ phone) (hphone ▸ expects)
      (hphone ▸ keys) hm (hphone ▸ derived) (desktop.noise hn) (holds.noise hn)
      (htoDesktop.trans toDesktop) hsent isResponse ?_
    rw [← List.append_assoc, List.forall_mem_append]
    exact ⟨harmless, hlines desktop.token⟩
  | refused accepted phone desktop toDesktop toPhone =>
    exact .refused (haccepted.trans accepted) (hphone ▸ phone) (desktop.noise hn)
      (htoDesktop ▸ toDesktop) (toPhone.noise desktop hn)
  | authenticated accepted phone pin_eq authToken crypto_eq packetizer holds token toDesktop =>
    refine .authenticated (haccepted.trans accepted) (hphone ▸ phone) pin_eq (hphone ▸ authToken)
      (hphone ▸ crypto_eq) (hphone ▸ packetizer) (holds.noise hn) ?_ (htoDesktop ▸ toDesktop)
    intro hpaired
    rcases hn.desktop with ⟨hs, -, ht, -⟩ | ⟨hs, -⟩
    · exact ht.trans (token (hs.symm.trans hpaired))
    · rw [hpaired] at hs
      cases hs
  | left accepted phone => exact .left (haccepted.trans accepted) (hphone ▸ phone)

/-- A change of the phone that leaves alone what the pairing is about. -/
structure Quiet (p p' : Phone) : Prop where
  connection : p'.connection = p.connection
  pairingManager : p'.pairingManager = p.pairingManager
  pendingKeys : p'.context.pendingKeys = p.context.pendingKeys
  crypto : p'.context.crypto = p.context.crypto
  packetizer : p'.context.sender.packetizer.crypto = p.context.sender.packetizer.crypto

theorem Serves.quiet {p p' : Phone} {c : Connection} {authenticated : Bool}
    (h : Serves p c authenticated) (hq : Quiet p p') : Serves p' c authenticated :=
  ⟨hq.connection.trans h.connection, h.reading, h.authenticated_eq⟩

theorem Expects.quiet {p p' : Phone} {c : Connection} (h : Expects p c) (hq : Quiet p p') :
    Expects p' c := ⟨by rw [hq.pairingManager, h.currentPin], h.ascii⟩

theorem Phase.quiet (h : Phase env android K M pin l) {p : Phone} (hq : Quiet l.phone p) :
    Phase env android K M pin { l with phone := p } := by
  cases h with
  | waiting accepted phone desktop toDesktop toPhone =>
    exact .waiting accepted (hq.connection.trans phone) desktop toDesktop toPhone
  | challenged accepted phone expects keys desktop toDesktop toPhone =>
    rw [← hq.pendingKeys] at keys toDesktop
    exact .challenged accepted (phone.quiet hq) (expects.quiet hq) keys desktop toDesktop toPhone
  | responded accepted phone expects keys hm derived desktop holds toDesktop toPhone isResponse
      harmless =>
    rw [← hq.pendingKeys] at keys derived
    exact .responded accepted (phone.quiet hq) (expects.quiet hq) keys hm derived desktop holds
      toDesktop toPhone isResponse harmless
  | refused accepted phone desktop toDesktop toPhone =>
    exact .refused accepted (phone.quiet hq) desktop toDesktop toPhone
  | authenticated accepted phone pin_eq authToken crypto_eq packetizer holds token toDesktop =>
    refine .authenticated accepted (phone.quiet hq) pin_eq ?_ (hq.crypto.trans crypto_eq)
      (hq.packetizer.trans packetizer) holds token toDesktop
    exact (congrArg _ hq.pairingManager).trans authToken
  | left accepted phone => exact .left accepted (hq.connection ▸ phone)

theorem Phase.phone_cases (h : Phase env android K M pin l) :
    l.phone.connection = none ∧ l.accepted = false ∨
    (∃ c authenticated, Serves l.phone c authenticated) ∧ l.accepted = true ∨
    (∀ c, l.phone.connection = some c → c.stage = .leaving) ∧ l.accepted = true := by
  cases h with
  | waiting accepted phone => exact .inl ⟨phone, accepted⟩
  | challenged accepted phone | responded accepted phone | refused accepted phone
  | authenticated accepted phone => exact .inr (.inl ⟨⟨_, _, phone⟩, accepted⟩)
  | left accepted phone => exact .inr (.inr ⟨phone, accepted⟩)

end ControlLink

end VeyraCam
