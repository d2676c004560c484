import VeyraCam.Link.Challenge

/-! # The control link

A service manager and a phone with one control connection between them: lines
go each way in order and are handled one at a time, and in between anything else
can happen to either side.
-/

namespace VeyraCam

/-- The text that `std::to_string` gives for a `float`. -/
abbrev FloatText := { text : Text // IsLiteral text }

inductive Command where
  | setZoom (zoom : FloatText)
  | setExposure (exposure : ℤ)
  | setFocus (autoFocus : Bool) (distance : FloatText)
  | setTorch (enabled : Bool)
  | switchCamera (front : Bool)
  | requestIdr

namespace Command

def bool (b : Bool) : JsonValue := .raw (if b then "true" else "false").toList

def type : Command → Text
  | setZoom _ => "setZoom".toList
  | setExposure _ => "setExposure".toList
  | setFocus _ _ => "setFocus".toList
  | setTorch _ => "setTorch".toList
  | switchCamera _ => "switchCamera".toList
  | requestIdr => "requestIdr".toList

def fields : Command → List (Text × JsonValue)
  | setZoom zoom => [("zoom".toList, .raw zoom.val)]
  | setExposure exposure => [("exposure".toList, .number exposure)]
  | setFocus autoFocus distance =>
    [("autoFocus".toList, bool autoFocus), ("distance".toList, .raw distance.val)]
  | setTorch enabled => [("enabled".toList, bool enabled)]
  | switchCamera front => [("front".toList, bool front)]
  | requestIdr => []

def message (c : Command) (token : Text) : Text :=
  buildControlMessage token c.type (if c.fields.isEmpty then [] else objectText c.fields)

end Command

/-- The two sides and the lines between them. -/
structure ControlLink where
  desktop : ServiceManager
  phone : Phone
  /-- The phone has accepted the connection, now or before. -/
  accepted : Bool := false
  toDesktop : List Text := []
  toPhone : List Text := []

inductive Move where
  | connectEnd (ok : Bool)
  | disconnectDevice
  | datagram (source : UInt32) (data : Bytes)
  | command (c : Command)
  /-- The desktop handles a line; the keys are those `GenerateKeyPair` would draw. -/
  | readByDesktop (myKeys : KeyPair)
  | accept (clientIp : Text) (digits : List.Vector (Fin 10) PairingManager.pinLength)
    (keys : KeyPair)
  /-- The phone handles a line, up to the next `readLine`. -/
  | readByPhone (tokenBytes : FixedBytes 32) (socketOk : Bool)
  | hangup
  | leave
  | send (call : Send)
  | tick (ms : ℕ)

namespace ControlLink

def sentByDesktop (outputs : List Output) : List Text :=
  outputs.filterMap fun
    | .sendControlMessage text => some text
    | _ => none

def sentByPhone (outputs : List PhoneOutput) : List Text :=
  outputs.filterMap fun
    | .message text => some text
    | _ => none

/-- An event of the desktop; a line is only sent while the client is connected. -/
def desktopStep (env : Platform) (l : ControlLink) (e : Event) : ControlLink :=
  let (desktop, outputs) := l.desktop.step env e
  { l with
    desktop
    toPhone := l.toPhone ++ if l.desktop.connection.isSome then sentByDesktop outputs else [] }

def phoneStep (android : Android) (l : ControlLink) (events : List PhoneEvent) : ControlLink :=
  let (phone, outputs) := Machine.exec (Phone.step android) l.phone events
  { l with phone, toDesktop := l.toDesktop ++ sentByPhone outputs }

def isReading (p : Phone) : Bool := p.connection.any (·.stage = .reading)

def step (env : Platform) (android : Android) (l : ControlLink) : Move → ControlLink
  | .connectEnd ok => l.desktopStep env (.connectEnd ok)
  | .disconnectDevice => l.desktopStep env .disconnectDevice
  | .datagram source data => l.desktopStep env (.datagram source data)
  | .command c =>
    if l.desktop.isStreaming && l.desktop.connection.isSome then
      { l with toPhone := l.toPhone ++ [c.message l.desktop.token] }
    else l
  | .readByDesktop myKeys =>
    match l.toDesktop with
    | [] => l
    | line :: rest =>
      if l.desktop.connection.isSome then
        desktopStep env { l with toDesktop := rest } (.controlLine line myKeys)
      else l
  | .accept clientIp digits keys =>
    if l.accepted then l
    else phoneStep android { l with accepted := true } [.accept clientIp digits keys]
  | .readByPhone tokenBytes socketOk =>
    match l.toPhone with
    | [] => l
    | line :: rest =>
      if isReading l.phone then
        phoneStep android { l with toPhone := rest }
          [.line line tokenBytes, .proceed socketOk, .proceed socketOk]
      else l
  | .hangup => l.phoneStep android [.hangup]
  | .leave => l.phoneStep android [.proceed false]
  | .send call => l.phoneStep android [.send call]
  | .tick ms => l.phoneStep android [.tick ms]

def run (env : Platform) (android : Android) (l : ControlLink) (moves : List Move) : ControlLink :=
  moves.foldl (step env android) l

def start (env : Platform) (desktop : ServiceManager) (phone : Phone) (hostIp : Text)
    (typed : List.Vector (Fin 10) PairingManager.pinLength) (onStatus : Bool) : ControlLink where
  desktop :=
    (desktop.step env (.connectBegin hostIp (PairingManager.generatePin typed) onStatus)).1
  phone

end ControlLink

end VeyraCam
