import VeyraCam.Crypto.KeyExchange
import VeyraCam.Desktop.ControlLine
import VeyraCam.Library.Machine
import VeyraCam.Phone.NativeSenderContext
import VeyraCam.Phone.PairingManager

/-! # The phone's control server

`UdpTransport.handleConnection` as the streaming service wires it, with its
pairing manager and native context. The server thread serves one connection
after another and calls into the native context between lines, while the
encoder threads send media.
-/

namespace VeyraCam

/-- What the phone's code calls outside the repository. -/
structure Android where
  lib : Mbedtls
  /-- `inet_pton` for IPv4, `none` when it does not return 1. -/
  inetPton : Text → Option UInt32
  /-- `JSONObject(line)` with the `optString` of the object; `none` is an exception. -/
  parseJson : Text → Option (Text → Text)
  /-- The members of `toCapabilitiesJson` after its type. -/
  capabilities : List (Text × JsonValue)

/-- An environment in which one address parses, to evaluate the model on. -/
def Android.sample : Android where
  lib := .sample
  inetPton text := if text = "10.0.0.9".toList then some 0x0900000A else none
  parseJson line := some (extractJsonString line)
  capabilities := []

def sampleResponse (pin : String) : Text :=
  jsonToString [("type".toList, .string "pairing_response".toList),
    ("pin".toList, .string pin.toList),
    ("client_pubkey".toList, .string (.replicate 32 (.ofNat 50)))]

def sampleCommand (type : String) : Text :=
  buildControlMessage (Base64.encode (.replicate 32 1)) type.toList []

/-- Where the control thread is in `handleConnection`. -/
inductive Stage where
  /-- In `readLine`. -/
  | reading
  /-- Before `onCompletePairing`. -/
  | completing (clientPubKey : Text)
  /-- Before `onAuthenticated`. -/
  | configuring
  /-- Past the loop. -/
  | leaving
  deriving DecidableEq

structure Connection where
  clientIp : Text
  pin : Text
  authenticated : Bool := false
  stage : Stage := .reading
  deriving DecidableEq

structure Phone where
  pairingManager : PairingManager := {}
  context : NativeSenderContext
  connection : Option Connection := none
  /-- `System.currentTimeMillis()`. -/
  now : ℕ := 0

inductive PhoneEvent where
  /-- A client connects, with the digits of its PIN and the keys of its challenge. -/
  | accept (clientIp : Text) (digits : List.Vector (Fin 10) PairingManager.pinLength)
    (keys : KeyPair)
  /-- `readLine` returns a line; the bytes are those a token would be minted from. -/
  | line (text : Text) (tokenBytes : FixedBytes 32)
  /-- `readLine` returns null or throws. -/
  | hangup
  /-- The control thread makes the call it is before. -/
  | proceed (socketOk : Bool)
  | send (call : Send)
  | tick (ms : ℕ)

/-- A client that enters the given PINs for the PIN of zeros. -/
def sampleVisit (clientIp : String) (pins : List String) : List PhoneEvent :=
  .accept clientIp.toList PairingManager.zeroDigits (.sample 49) ::
    pins.flatMap fun pin => [.line (sampleResponse pin) (.replicate 32 1), .proceed true,
      .proceed true]

inductive PhoneOutput where
  | pinRequired (pin : Text)
  | message (text : Text)
  | pairingFailed (reason : Text)
  /-- `onControlCommandReceived`, with the line of the payload. -/
  | controlCommand (opCode : ℕ) (line : Text)
  /-- A `sendto` call, with the connection there is. -/
  | datagram (datagram : Datagram) (during : Option Connection)
  deriving DecidableEq

namespace Phone

def udpMediaPort : UInt16 := 5151
def maxLineLength : ℕ := 64 * 1024

/-- `String.length`, in UTF-16 code units. -/
def utf16Length (s : Text) : ℕ := (s.map fun c => if c.toNat < 0x10000 then 1 else 2).sum

def pairingChallenge (serverPubKey : Text) (sessionId : UInt32) : Text :=
  jsonToString [("type".toList, .string "pairing_challenge".toList),
    ("server_pubkey".toList, .string serverPubKey),
    ("session_id".toList, .number sessionId.toInt32.toInt)]

def pairingOk (token : Option Text) : Text :=
  jsonToString (("type".toList, .string "pairing_ok".toList) ::
    (token.map fun token => ("token".toList, .string token)).toList)

def pairingError (reason : String) : Text :=
  jsonToString [("type".toList, .string "pairing_error".toList),
    ("reason".toList, .string reason.toList)]

def opCode (type : Text) : ℕ :=
  if type = "hello".toList then 0x01
  else if type = "capabilities".toList then 0x02
  else if type = "startStream".toList then 0x03
  else if type = "stopStream".toList then 0x04
  else if type = "setZoom".toList then 0x05
  else if type = "setExposure".toList then 0x06
  else if type = "setFocus".toList then 0x07
  else if type = "requestIdr".toList then 0x08
  else if type = "setBitrate".toList then 0x09
  else if type = "ping".toList then 0x0B
  else 0x00

variable (env : Android)

def create (sessionId : UInt32) : Phone where
  context := .create sessionId

def accept (s : Phone) (clientIp : Text)
    (digits : List.Vector (Fin 10) PairingManager.pinLength) (keys : KeyPair) :
    Phone × List PhoneOutput :=
  let (pairingManager, pin?) := s.pairingManager.startPairing clientIp s.now digits
  match pin? with
  | none => ({ s with pairingManager }, [.message (pairingError "locked")])
  | some pin =>
    let (context, serverPubKey) := s.context.beginPairing env.lib keys
    ({ s with pairingManager, context, connection := some { clientIp, pin } },
      [.pinRequired pin,
        .message (pairingChallenge serverPubKey s.context.sender.packetizer.sessionId)])

/-- The `pairing_response` branch of its loop, up to the call of `onPairingComplete`. -/
def handlePairingResponse (s : Phone) (c : Connection) (field : Text → Text)
    (tokenBytes : FixedBytes 32) : Phone × List PhoneOutput :=
  if c.authenticated then (s, [])
  else
    let clientPubKey := field "client_pubkey".toList
    let (pairingManager, result) :=
      s.pairingManager.verifyPin (field "pin".toList) s.now tokenBytes
    let s := { s with pairingManager }
    match result with
    | .ok =>
      if clientPubKey.isEmpty then (s, [.message (pairingError "invalid_key")])
      else ({ s with connection := some { c with stage := .completing clientPubKey } }, [])
    | .invalidPin => (s, [.message (pairingError "invalid_pin")])
    | .locked =>
      ({ s with connection := some { c with stage := .leaving } },
        [.message (pairingError "locked")])
    | .notAwaiting => (s, [])

/-- `handleControlCommand`, of which only the answer to `hello` is sent. -/
def handleControlCommand (code : ℕ) : List PhoneOutput :=
  if code = 0x01 then
    [.message (jsonToString (("type".toList, .string "capabilities".toList) :: env.capabilities))]
  else []

def handleLine (s : Phone) (c : Connection) (line : Text) (tokenBytes : FixedBytes 32) :
    Phone × List PhoneOutput :=
  if maxLineLength < utf16Length line then (s, [])
  else
    match env.parseJson line with
    | none => (s, [])
    | some field =>
      let type := field "type".toList
      if type = "pairing_response".toList then s.handlePairingResponse c field tokenBytes
      else if !c.authenticated then (s, [])
      else if !s.pairingManager.isTokenValid (field "auth_token".toList) then (s, [])
      else (s, .controlCommand (opCode type) line :: handleControlCommand env (opCode type))

def onClientDisconnected (s : Phone) : Phone :=
  { s with pairingManager := s.pairingManager.reset, connection := none }

/-- The call the control thread is before, and what it does with the result. -/
def proceed (s : Phone) (c : Connection) (socketOk : Bool) : Phone × List PhoneOutput :=
  match c.stage with
  | .reading => (s, [])
  | .completing clientPubKey =>
    let (context, completed) := s.context.completePairing env.lib clientPubKey
    if completed then
      ({ s with
          context
          connection := some { c with authenticated := true, stage := .configuring } },
        [.message (pairingOk s.pairingManager.authToken)])
    else
      ({ s with context, connection := some { c with stage := .reading } },
        [.pairingFailed "key_derivation_failed".toList, .message (pairingError "invalid_key")])
  | .configuring =>
    let (context, _) := s.context.configureUdp env.inetPton c.clientIp udpMediaPort socketOk
    ({ s with context, connection := some { c with stage := .reading } }, [])
  | .leaving =>
    (onClientDisconnected { s with pairingManager := s.pairingManager.reset }, [])

/-- One event. A client is served when the one before has been left, and lines are read in
`readLine` only. -/
def step (s : Phone) : PhoneEvent → Phone × List PhoneOutput
  | .accept clientIp digits keys =>
    match s.connection with
    | none => s.accept env clientIp digits keys
    | some _ => (s, [])
  | .line text tokenBytes =>
    match s.connection with
    | none => (s, [])
    | some c => if c.stage = .reading then s.handleLine env c text tokenBytes else (s, [])
  | .hangup =>
    match s.connection with
    | none => (s, [])
    | some c =>
      if c.stage = .reading then
        ({ s with connection := some { c with stage := .leaving } }, [])
      else (s, [])
  | .proceed socketOk =>
    match s.connection with
    | none => (s, [])
    | some c => s.proceed env c socketOk
  | .send call =>
    let (context, datagrams) := s.context.send env.lib call
    ({ s with context }, datagrams.map (.datagram · s.connection))
  | .tick ms => ({ s with now := s.now + ms }, [])

variable {env}

/-- The control thread reads a line of its connection as an object. -/
structure Reads (env : Android) (s : Phone) (c : Connection) (text : Text) (field : Text → Text) :
    Prop where
  connection : s.connection = some c
  reading : c.stage = .reading
  parsed : env.parseJson text = some field

/-- The object is a `pairing_response` that is looked at. -/
structure Responds (env : Android) (s : Phone) (c : Connection) (text : Text)
    (field : Text → Text) : Prop extends Reads env s c text field where
  type : field "type".toList = "pairing_response".toList
  unauthenticated : c.authenticated = false

/-- The PIN of a response is compared, with the given expected one. -/
structure Compares (s : Phone) (expected : Text) : Prop where
  unlocked : ¬ (s.pairingManager.state = .locked ∧ s.now < s.pairingManager.lockUntilMs)
  awaiting : s.pairingManager.unlocked.state = .awaitingPin
  currentPin : s.pairingManager.currentPin = some expected

/-- Everything the phone can do at an event. -/
inductive Transition (env : Android) (s : Phone) : PhoneEvent → Phone → List PhoneOutput → Prop
  | idle (e : PhoneEvent) : Transition env s e s []
  | refuse {clientIp digits keys} (connection : s.connection = none)
      (locked : s.pairingManager.state = .locked ∧ s.now < s.pairingManager.lockUntilMs) :
      Transition env s (.accept clientIp digits keys) s [.message (pairingError "locked")]
  | accept {clientIp digits keys} (connection : s.connection = none)
      (unlocked : ¬ (s.pairingManager.state = .locked ∧ s.now < s.pairingManager.lockUntilMs)) :
      Transition env s (.accept clientIp digits keys)
        { s with
          pairingManager :=
            { s.pairingManager with
              state := .awaitingPin
              currentPin := some (PairingManager.generatePin digits)
              authToken := none
              pairedClientFingerprint := some clientIp }
          context := (s.context.beginPairing env.lib keys).1
          connection := some { clientIp, pin := PairingManager.generatePin digits } }
        [.pinRequired (PairingManager.generatePin digits),
          .message (pairingChallenge (SessionCrypto.base64Encode env.lib keys.publicKey.toList)
            s.context.sender.packetizer.sessionId)]
  | verify {c text field tokenBytes expected} (responds : Responds env s c text field)
      (compares : Compares s expected)
      (matched : PairingManager.asciiBytes (field "pin".toList) =
        PairingManager.asciiBytes expected)
      (key : (field "client_pubkey".toList).isEmpty = false) :
      Transition env s (.line text tokenBytes)
        { s with
          pairingManager := s.pairingManager.unlocked.succeed s.now tokenBytes
          connection := some { c with stage := .completing (field "client_pubkey".toList) } } []
  | verifyWithoutKey {c text field tokenBytes expected} (responds : Responds env s c text field)
      (compares : Compares s expected)
      (matched : PairingManager.asciiBytes (field "pin".toList) =
        PairingManager.asciiBytes expected) :
      Transition env s (.line text tokenBytes)
        { s with pairingManager := s.pairingManager.unlocked.succeed s.now tokenBytes }
        [.message (pairingError "invalid_key")]
  | wrongPin {c text field tokenBytes expected} (responds : Responds env s c text field)
      (compares : Compares s expected)
      (unmatched : PairingManager.asciiBytes (field "pin".toList) ≠
        PairingManager.asciiBytes expected) :
      Transition env s (.line text tokenBytes)
        { s with pairingManager := s.pairingManager.unlocked.refuse s.now }
        [.message (pairingError "invalid_pin")]
  | lockedOut {c text field tokenBytes} (responds : Responds env s c text field)
      (locked : s.pairingManager.state = .locked ∧ s.now < s.pairingManager.lockUntilMs) :
      Transition env s (.line text tokenBytes)
        { s with connection := some { c with stage := .leaving } }
        [.message (pairingError "locked")]
  | notAwaiting {c text field tokenBytes} (responds : Responds env s c text field)
      (unlocked : ¬ (s.pairingManager.state = .locked ∧ s.now < s.pairingManager.lockUntilMs))
      (notAwaiting : s.pairingManager.unlocked.state ≠ .awaitingPin ∨
        s.pairingManager.currentPin = none) :
      Transition env s (.line text tokenBytes)
        { s with pairingManager := s.pairingManager.unlocked } []
  | command {c text field tokenBytes} (reads : Reads env s c text field)
      (type : field "type".toList ≠ "pairing_response".toList)
      (authenticated : c.authenticated = true)
      (token : s.pairingManager.isTokenValid (field "auth_token".toList) = true) :
      Transition env s (.line text tokenBytes) s
        (.controlCommand (opCode (field "type".toList)) text ::
          handleControlCommand env (opCode (field "type".toList)))
  | hangup {c} (connection : s.connection = some c) (reading : c.stage = .reading) :
      Transition env s .hangup { s with connection := some { c with stage := .leaving } } []
  | complete {c clientPubKey context socketOk} (connection : s.connection = some c)
      (completing : c.stage = .completing clientPubKey)
      (completed : s.context.completePairing env.lib clientPubKey = (context, true)) :
      Transition env s (.proceed socketOk)
        { s with
          context
          connection := some { c with authenticated := true, stage := .configuring } }
        [.message (pairingOk s.pairingManager.authToken)]
  | failToComplete {c clientPubKey context socketOk} (connection : s.connection = some c)
      (completing : c.stage = .completing clientPubKey)
      (failed : s.context.completePairing env.lib clientPubKey = (context, false)) :
      Transition env s (.proceed socketOk)
        { s with context, connection := some { c with stage := .reading } }
        [.pairingFailed "key_derivation_failed".toList, .message (pairingError "invalid_key")]
  | configure {c socketOk} (connection : s.connection = some c)
      (configuring : c.stage = .configuring) :
      Transition env s (.proceed socketOk)
        { s with
          context :=
            (s.context.configureUdp env.inetPton c.clientIp udpMediaPort socketOk).1
          connection := some { c with stage := .reading } } []
  | leave {c socketOk} (connection : s.connection = some c) (leaving : c.stage = .leaving) :
      Transition env s (.proceed socketOk)
        { s with pairingManager := s.pairingManager.reset, connection := none } []
  | send {call} :
      Transition env s (.send call) { s with context := (s.context.send env.lib call).1 }
        ((s.context.send env.lib call).2.map (.datagram · s.connection))
  | tick {ms} : Transition env s (.tick ms) { s with now := s.now + ms } []

variable {s : Phone} {c : Connection}

theorem transition_accept (hc : s.connection = none) (clientIp : Text)
    (digits : List.Vector (Fin 10) PairingManager.pinLength) (keys : KeyPair) :
    Transition env s (.accept clientIp digits keys) (s.accept env clientIp digits keys).1
      (s.accept env clientIp digits keys).2 := by
  unfold accept PairingManager.startPairing
  split_ifs with hlock
  · exact .refuse hc hlock
  · exact .accept hc hlock

theorem transition_handlePairingResponse {text : Text} {field : Text → Text}
    (hr : Reads env s c text field) (ht : field "type".toList = "pairing_response".toList)
    (tokenBytes : FixedBytes 32) :
    Transition env s (.line text tokenBytes) (s.handlePairingResponse c field tokenBytes).1
      (s.handlePairingResponse c field tokenBytes).2 := by
  unfold handlePairingResponse
  by_cases ha : c.authenticated = true
  · rw [if_pos ha]
    exact .idle _
  · rw [if_neg ha]
    have hresponds : Responds env s c text field := ⟨hr, ht, by simpa using ha⟩
    rcases s.pairingManager.verifyPin_cases (field "pin".toList) s.now tokenBytes with
      ⟨hstate, hnow, hv⟩ | ⟨hlock, hwait, hv⟩ |
        ⟨hlock, hstate, expected, hpin, ⟨hmatch, hv⟩ | ⟨hmatch, hv⟩⟩
    · rw [hv]
      exact .lockedOut hresponds ⟨hstate, hnow⟩
    · rw [hv]
      exact .notAwaiting hresponds hlock hwait
    · rw [hv]
      dsimp only
      split_ifs with hkey
      · exact .verifyWithoutKey hresponds ⟨hlock, hstate, hpin⟩ hmatch
      · exact .verify hresponds ⟨hlock, hstate, hpin⟩ hmatch (by simpa using hkey)
    · rw [hv]
      exact .wrongPin hresponds ⟨hlock, hstate, hpin⟩ hmatch

theorem transition_handleLine (hc : s.connection = some c) (hr : c.stage = .reading) (text : Text)
    (tokenBytes : FixedBytes 32) :
    Transition env s (.line text tokenBytes) (s.handleLine env c text tokenBytes).1
      (s.handleLine env c text tokenBytes).2 := by
  unfold handleLine
  by_cases hlong : maxLineLength < utf16Length text
  · rw [if_pos hlong]
    exact .idle _
  · rw [if_neg hlong]
    cases hp : env.parseJson text with
    | none => exact .idle _
    | some field =>
      have hreads : Reads env s c text field := ⟨hc, hr, hp⟩
      dsimp only
      split_ifs with htype hauth htoken
      · exact transition_handlePairingResponse hreads htype tokenBytes
      · exact .idle _
      · exact .idle _
      · exact .command hreads htype (by simpa using hauth) (by simpa using htoken)

theorem transition_proceed (hc : s.connection = some c) (socketOk : Bool) :
    Transition env s (.proceed socketOk) (s.proceed env c socketOk).1
      (s.proceed env c socketOk).2 := by
  unfold proceed
  cases hstage : c.stage with
  | reading => exact .idle _
  | completing clientPubKey =>
    dsimp only
    cases hp : s.context.completePairing env.lib clientPubKey with
    | mk context completed =>
      cases completed with
      | true => exact .complete hc hstage hp
      | false => exact .failToComplete hc hstage hp
  | configuring => exact .configure hc hstage
  | leaving => exact .leave hc hstage

theorem transition_step (s : Phone) (e : PhoneEvent) :
    Transition env s e (s.step env e).1 (s.step env e).2 := by
  cases e with
  | accept clientIp digits keys =>
    simp only [step]
    split
    · next hc => exact transition_accept hc clientIp digits keys
    · exact .idle _
  | line text tokenBytes =>
    simp only [step]
    split
    · exact .idle _
    · next c hc =>
      split_ifs with hr
      · exact transition_handleLine hc hr text tokenBytes
      · exact .idle _
  | hangup =>
    simp only [step]
    split
    · exact .idle _
    · next c hc =>
      split_ifs with hr
      · exact .hangup hc hr
      · exact .idle _
  | proceed socketOk =>
    simp only [step]
    split
    · exact .idle _
    · next c hc => exact transition_proceed hc socketOk
  | send call => exact .send
  | tick ms => exact .tick

/-- Only sends give datagrams. -/
theorem Transition.of_datagram {e : PhoneEvent} {s' : Phone} {outputs : List PhoneOutput}
    (h : Transition env s e s' outputs) {d : Datagram} {during : Option Connection}
    (hd : .datagram d during ∈ outputs) :
    ∃ call, e = .send call ∧ d ∈ (s.context.send env.lib call).2 ∧ during = s.connection := by
  cases h with
  | send =>
    obtain ⟨d', hd', he⟩ := List.mem_map.mp hd
    obtain ⟨rfl, rfl⟩ := PhoneOutput.datagram.inj he
    exact ⟨_, rfl, hd', rfl⟩
  | command =>
    unfold handleControlCommand at hd
    split_ifs at hd <;> simp at hd
  | _ => simp at hd

end Phone

end VeyraCam
