import VeyraCam.Phone.StreamingService
import VeyraCam.Protocol.Bytes

/-! # The app of the phone

`VeyraCamController` in the isolate, `FlutterBridgePlugin` on the main thread and
the streaming service. The calls of the control channel and their replies are
handled in the order in which they were sent. A call that starts a stream is
answered by the camera or by what the plugin has posted, whichever comes first.
-/

namespace VeyraCam

open StreamingService

/-! ## The controller -/

inductive ChannelCall where
  | startStreaming
  | stopStreaming
  | getPairingPin
  deriving DecidableEq

inductive ChannelReply where
  | started (textureId : ℕ)
  | error (code : Text) (message : Option Text)
  | stopped
  | pairingPin (pin : Option Text)
  deriving DecidableEq

inductive PermissionAnswer where
  | granted
  | cameraDenied (permanently : Bool)
  | microphoneDenied (permanently : Bool)
  deriving DecidableEq

def PermissionAnswer.errorText : PermissionAnswer → Option Text
  | granted => none
  | cameraDenied permanently =>
    some ("Camera permission denied — please allow Camera in Settings".toList ++
      if permanently then ". Open App Settings to grant.".toList else [])
  | microphoneDenied permanently =>
    some ("Microphone permission denied — please allow Microphone in Settings".toList ++
      if permanently then ". Open App Settings to grant.".toList else [])

/-- What is shown of an error of the platform. -/
def platformErrorText (code : Text) (message : Option Text) : Text :=
  if code = "PERMISSION_DENIED".toList then
    "Permission denied: ".toList ++ message.getD "null".toList
  else if code = "STREAM_FAILED".toList ∨ code = "TEXTURE_FAILED".toList then
    "Failed to start: ".toList ++ message.getD "null".toList
  else message.getD code

/-- `VeyraCamController`, as far as a stream is concerned; `requesting` while `startStreaming` waits
for permissions. -/
structure VeyraCamController where
  textureId : Option ℕ := none
  isStreaming : Bool := false
  isConnecting : Bool := false
  pairingPin : Option Text := none
  lastError : Option Text := none
  telemetrySub : Bool := false
  pairingPinTimer : Bool := false
  requesting : Bool := false
  deriving DecidableEq

namespace VeyraCamController

/-- `startStreaming` up to the request for permissions. -/
def startStreaming (c : VeyraCamController) : VeyraCamController :=
  if c.isStreaming || c.isConnecting then c
  else { c with isConnecting := true, lastError := none, requesting := true }

/-- The next part of `startStreaming`. -/
def permissionsAnswered (c : VeyraCamController) (answer : PermissionAnswer) :
    VeyraCamController × List ChannelCall :=
  if !c.requesting then (c, [])
  else
    match answer.errorText with
    | none => ({ c with requesting := false }, [.startStreaming])
    | some error =>
      ({ c with requesting := false, isConnecting := false, lastError := some error }, [])

/-- `stopStreaming` up to the call. -/
def stopStreaming (c : VeyraCamController) : List ChannelCall :=
  if !c.isStreaming then [] else [.stopStreaming]

def listenTelemetry (c : VeyraCamController) : VeyraCamController :=
  { c with telemetrySub := true, pairingPinTimer := true }

/-- What follows a reply in the function that made the call. -/
def handleReply (c : VeyraCamController) : ChannelReply → VeyraCamController
  | .started textureId =>
    listenTelemetry { c with
      textureId := some textureId
      isStreaming := true
      isConnecting := false
      lastError := none }
  | .error code message =>
    { c with
      isConnecting := false
      isStreaming := false
      lastError := some (platformErrorText code message) }
  | .stopped =>
    { c with
      telemetrySub := false
      pairingPinTimer := false
      pairingPin := none
      isStreaming := false
      textureId := none }
  | .pairingPin pin => { c with pairingPin := pin }

end VeyraCamController

/-! ## The plugin -/

/-- Where a call is that starts a stream: `tryStart` is posted, the runnable is posted that answers
if nothing else does, or nothing is posted. -/
inductive StartStage where
  | retrying
  | started
  | ended
  deriving DecidableEq

/-- A call that starts a stream, with the entry for its texture; `opening` when its camera may call
`onStarted`. -/
structure StartCall where
  entry : ℕ
  attempts : ℕ := 0
  stage : StartStage := .retrying
  opening : Bool := false
  resultReplied : Bool := false
  deriving DecidableEq

/-- How a call of `startStreaming` of the service goes: how its parts end, whether the camera is
ready before it ends, and the exception, if it throws one. -/
structure StartRun where
  outcomes : Outcomes := {}
  cameraReady : Bool := false
  security : Bool := false
  message : Option Text := none
  deriving DecidableEq

/-- What happens before the service is asked to start. -/
inductive Setup where
  | ready
  | throws (message : Option Text)
  | noTexture
  | serviceThrows (message : Option Text)
  deriving DecidableEq

namespace StartCall

/-- A result can be replied to once. -/
def answer (c : StartCall) (reply : ChannelReply) : StartCall × List ChannelReply :=
  if c.resultReplied then (c, []) else ({ c with resultReplied := true }, [reply])

/-- The error that an exception of `startStreaming` is replied with. -/
def errorOf (run : StartRun) : ChannelReply :=
  if run.security || !run.outcomes.permitted then
    .error "PERMISSION_DENIED".toList
      (run.message <|> some "Camera/Mic permission denied".toList)
  else .error "STREAM_FAILED".toList (run.message <|> some "Failed to start streaming".toList)

def startService (c : StartCall) (service : StreamingService) (run : StartRun) :
    StartCall × StreamingService × List ChannelReply :=
  let (c, early) :=
    if run.cameraReady && !service.isStreaming then c.answer (.started c.entry) else (c, [])
  if (service.startStreaming run.outcomes).2 then
    ({ c with stage := .started, opening := !service.isStreaming },
      (service.startStreaming run.outcomes).1, early)
  else
    let (c, late) := c.answer (errorOf run)
    ({ c with stage := .ended }, (service.startStreaming run.outcomes).1, early ++ late)

def tryStart (c : StartCall) (service : Option StreamingService) (run : StartRun) :
    StartCall × Option StreamingService × List ChannelReply :=
  match service with
  | some service =>
    let (c, service, replies) := c.startService service run
    (c, some service, replies)
  | none =>
    if c.attempts < 5 then ({ c with attempts := c.attempts + 1, stage := .retrying }, none, [])
    else
      let (c, replies) := c.answer
        (.error "SERVICE_NOT_READY".toList (some "VeyraStreamingService not ready after 1s".toList))
      ({ c with stage := .ended }, none, replies)

/-- The runnable that is posted for after 1.5 s. -/
def fallback (c : StartCall) : StartCall × List ChannelReply :=
  let (c, replies) := c.answer (.started c.entry)
  ({ c with stage := .ended }, replies)

end StartCall

/-- The app: the calls and replies under way, the calls that start a stream, the entry of
`FlutterBridgePlugin`, and the instance of the service. -/
structure CameraApp where
  controller : VeyraCamController := {}
  calls : List ChannelCall := []
  replies : List ChannelReply := []
  starts : List StartCall := []
  surfaceEntry : Option ℕ := none
  entries : ℕ := 0
  service : Option StreamingService := none

namespace CameraApp

inductive Event where
  /-- The user starts or stops the stream, and answers for permissions. -/
  | startStreaming
  | permissionsAnswered (answer : PermissionAnswer)
  | stopStreaming
  /-- The timer that asks for the PIN. -/
  | tick
  /-- The next call is handled on the main thread, and the next reply in the isolate. -/
  | handleCall (setup : Setup) (run : StartRun) (pin : Option Text)
  | handleReply
  /-- What has been posted for a call that starts a stream, and its camera. -/
  | retry (i : ℕ) (run : StartRun)
  | fallback (i : ℕ)
  | cameraReady (i : ℕ)
  | serviceCreated
  /-- The action of the notification. -/
  | actionStop
  | serviceDestroyed

def update (s : CameraApp) (i : ℕ) (c : StartCall) (replies : List ChannelReply) : CameraApp :=
  { s with starts := s.starts.set i c, replies := s.replies ++ replies }

def handleStart (s : CameraApp) (setup : Setup) (run : StartRun) : CameraApp :=
  match setup with
  | .throws message =>
    { s with replies := s.replies ++ [.error "START_FAILED".toList message] }
  | .noTexture =>
    { s with
      surfaceEntry := none
      replies := s.replies ++
        [.error "TEXTURE_FAILED".toList (some "Failed to create Flutter surface texture".toList)] }
  | .serviceThrows message =>
    { s with
      surfaceEntry := some s.entries
      entries := s.entries + 1
      replies := s.replies ++ [.error "SERVICE_START_FAILED".toList message] }
  | .ready =>
    let (c, service, replies) := StartCall.tryStart { entry := s.entries } s.service run
    { s with
      surfaceEntry := some s.entries
      entries := s.entries + 1
      service
      starts := s.starts ++ [c]
      replies := s.replies ++ replies }

def handleStop (s : CameraApp) : CameraApp :=
  { s with
    service := s.service.map StreamingService.stopStreaming
    surfaceEntry := none
    replies := s.replies ++ [.stopped] }

def handleCall (s : CameraApp) (setup : Setup) (run : StartRun) (pin : Option Text) : CameraApp :=
  match s.calls with
  | [] => s
  | .startStreaming :: calls => { s with calls }.handleStart setup run
  | .stopStreaming :: calls => { s with calls }.handleStop
  | .getPairingPin :: calls =>
    { s with calls, replies := s.replies ++ [.pairingPin (s.service.bind fun _ => pin)] }

def handleReply (s : CameraApp) : CameraApp :=
  match s.replies with
  | [] => s
  | reply :: replies => { s with replies, controller := s.controller.handleReply reply }

/-- What has been posted or registered for a call that starts a stream. -/
def proceed (s : CameraApp) (i : ℕ) (ready : StartCall → Bool)
    (go : StartCall → CameraApp) : CameraApp :=
  match s.starts[i]? with
  | none => s
  | some c => if ready c then go c else s

def step (s : CameraApp) : Event → CameraApp × List Unit
  | .startStreaming => ({ s with controller := s.controller.startStreaming }, [])
  | .permissionsAnswered answer =>
    let (controller, calls) := s.controller.permissionsAnswered answer
    ({ s with controller, calls := s.calls ++ calls }, [])
  | .stopStreaming => ({ s with calls := s.calls ++ s.controller.stopStreaming }, [])
  | .tick =>
    ({ s with calls := s.calls ++ if s.controller.pairingPinTimer then [.getPairingPin] else [] },
      [])
  | .handleCall setup run pin => (s.handleCall setup run pin, [])
  | .handleReply => (s.handleReply, [])
  | .retry i run =>
    (s.proceed i (fun c => c.stage = .retrying) fun c =>
      let (c, service, replies) := c.tryStart s.service run
      { s.update i c replies with service }, [])
  | .fallback i =>
    (s.proceed i (fun c => c.stage = .started) fun c =>
      s.update i c.fallback.1 c.fallback.2, [])
  | .cameraReady i =>
    (s.proceed i (fun c => c.stage = .started && c.opening) fun c =>
      s.update i (c.answer (.started c.entry)).1 (c.answer (.started c.entry)).2, [])
  | .serviceCreated => ({ s with service := s.service <|> some {} }, [])
  | .actionStop => ({ s with service := s.service.map StreamingService.stopStreaming }, [])
  | .serviceDestroyed => ({ s with service := none }, [])

end CameraApp

end VeyraCam
