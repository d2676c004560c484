import VeyraCam.Library.LockOrder

/-! # The locks of the desktop

The service manager is used by the threads of the application, by the thread
that reads control lines and by the one that receives datagrams. Each function
is given by the locks that it takes, the threads that it starts and those that
it waits for; whatever else decides which way it goes is left open. A status
callback only posts its status.
-/

namespace VeyraCam

open LockOrder

namespace LockUse

/-- The mutexes, under the names of what they are members of, and the kinds of threads. -/
inductive Resource where
  | application
  /-- The thread of `ReadLoop`. -/
  | readThread
  /-- The thread of `WorkerLoop`. -/
  | workerThread
  | serviceManager
  | peer
  | rng
  | telemetry
  | reassembler
  | jitterBuffer
  | decoder
  | renderer
  | virtualCamera
  | dshowFilter
  | send
  deriving DecidableEq

open Code Resource

/-! ## Datagrams -/

/-- The end of `SendControlMessage` does not depend on whether the peer reads: a socket that is
closed ends `send`. -/
def sendControlMessage : Code Resource := optional (lock send)

def command : Code Resource := optional sendControlMessage

/-- The callback of the decoder. The manager of the virtual camera takes no lock for a frame. -/
def frameCallback : Code Resource :=
  block [optional (optional (lock renderer)), optional (optional (lock dshowFilter))]

def decodeFrame : Code Resource := optional (guarded decoder (optional frameCallback))

def pushFrame : Code Resource := guarded jitterBuffer (optional command)

def onFrameReady : Code Resource := block [optional decodeFrame, optional pushFrame]

/-- `PushPacket`, which calls back for a frame or for a missing keyframe, if at all. -/
def pushPacket : Code Resource :=
  optional (guarded reassembler (oneOf [command, onFrameReady]))

def onUdpPacketReceived : Code Resource := optional (block [pushPacket, lock telemetry])

def workerLoop : Code Resource :=
  loop (optional (block [lock peer, optional onUdpPacketReceived]))

/-! ## Control lines -/

/-- `EnsureRng`, and `RngRead` as often as it is called. -/
def useRng : Code Resource := block [lock rng, loop (lock rng)]

def handlePairingChallenge : Code Resource :=
  block [lock serviceManager,
    oneOf [lock serviceManager,
      block [useRng, useRng,
        oneOf [lock serviceManager,
          block [
            guarded serviceManager (block [
              optional (block [lock reassembler, optional (lock reassembler)]),
              optional (lock peer)]),
            optional sendControlMessage]]]]]

def handlePairingResult : Code Resource :=
  guarded serviceManager (optional (block [sendControlMessage, sendControlMessage]))

def onTcpControlMessage : Code Resource := oneOf [handlePairingChallenge, handlePairingResult]

def readLoop : Code Resource := loop onTcpControlMessage

/-! ## The application -/

def disconnect : Code Resource := optional (optional (join readThread))

def connect : Code Resource := block [disconnect, optional (spawn readThread)]

def connectDevice : Code Resource :=
  optional (block [lock serviceManager, connect, optional (lock serviceManager)])

def disconnectDevice : Code Resource :=
  block [optional disconnect, guarded serviceManager (optional (lock peer))]

def stopServer : Code Resource := optional (optional (join workerThread))

def startServer : Code Resource := optional (spawn workerThread)

/-- `MFDecoder::Initialize`. When the decoder refuses a media type, `Shutdown` is called under the
lock that it takes. -/
def initializeDecoder (refuses : Bool) : Code Resource :=
  guarded decoder (if refuses then optional (lock decoder) else skip)

/-- `ServiceManager::Initialize`, which replaces what an earlier call has made. The destructor of
the control client disconnects it, which waits for its thread when a connection is open. -/
def initializeManager (refuses overConnection : Bool) : Code Resource :=
  guarded serviceManager (block [
    optional (lock renderer), lock renderer,
    optional (lock virtualCamera), lock virtualCamera,
    optional (block [optional (lock dshowFilter), lock dshowFilter]),
    optional (lock decoder), initializeDecoder refuses,
    optional stopServer, startServer,
    if overConnection then disconnect else skip])

def getTelemetryJson : Code Resource := block [lock telemetry, lock telemetry]

/-- `ServiceManager::Shutdown`, with the destructors of what it resets. -/
def shutdown : Code Resource :=
  block [disconnectDevice, optional stopServer,
    optional (block [lock virtualCamera, lock virtualCamera]),
    optional (block [lock dshowFilter, lock dshowFilter]),
    optional (block [lock decoder, lock decoder]),
    optional (block [lock renderer, lock renderer])]

/-- A thread of the application calls what it likes; `GetSharedTextureHandle` takes no lock. -/
def calls (refuses overConnection : Bool) : Code Resource :=
  loop (oneOf [initializeManager refuses overConnection, connectDevice, disconnectDevice,
    command, getTelemetryJson, shutdown])

def body (refuses overConnection : Bool) : Resource → Code Resource
  | application => calls refuses overConnection
  | readThread => readLoop
  | workerThread => workerLoop
  | _ => skip

def start (refuses overConnection : Bool) (threads : ℕ) : List (Thread Resource) :=
  List.replicate threads ⟨application, [.code (calls refuses overConnection)]⟩

/-! ## The order -/

/-- The thread that reads lines takes the mutex of the service manager, which is held while the
thread that receives datagrams is waited for. -/
def rank : Resource → ℕ
  | application => 0
  | readThread => 1
  | serviceManager => 2
  | workerThread => 3
  | reassembler => 4
  | decoder | jitterBuffer => 5
  | renderer | virtualCamera | dshowFilter | send | peer | rng | telemetry => 6

theorem ranked_body (kind : Resource) : (body false false kind).ranked rank (rank kind) = true := by
  cases kind <;> decide

theorem ordered_start (threads : ℕ) :
    ∀ t ∈ start false false threads, Ordered rank t.kind t.stack := by
  intro t ht
  obtain rfl := List.eq_of_mem_replicate ht
  exact ⟨ranked_body application, trivial⟩

/-- The decoder refuses a media type in the first call of `Initialize`. -/
def refusedMoves : List (ℕ × Bool) := List.replicate 25 (0, true) ++ [(0, false)]

/-- A device is connected; a line of it is read while `Initialize` is called. -/
def overConnectionMoves : List (ℕ × Bool) :=
  [(0, true), (0, false), (0, true), (0, false)] ++ List.replicate 9 (0, true) ++
    [(0, false), (0, true), (1, true), (1, true), (1, true)] ++ List.replicate 39 (0, true) ++
    [(0, false), (0, false)]

set_option maxRecDepth 100000 in
theorem not_live_refused (overConnection : Bool) :
    ¬ Live (run (body true overConnection) (start true overConnection 1) refusedMoves) := by
  cases overConnection
  · exact not_live_of_forall_blocked (by decide) (by decide)
  · exact not_live_of_forall_blocked (by decide) (by decide)

set_option maxRecDepth 100000 in
theorem not_live_overConnection :
    ¬ Live (run (body false true) (start false true 1) overConnectionMoves) :=
  not_live_of_forall_blocked (by decide) (by decide)

/-- However many threads the application has and however all threads interleave, every thread that
waits does so along a chain for one that can move, exactly when the decoder never refuses a media
type and `Initialize` is never called over an open connection. -/
theorem forall_live_iff (refuses overConnection : Bool) :
    (∀ threads moves, Live (run (body refuses overConnection)
      (start refuses overConnection threads) moves)) ↔
      refuses = false ∧ overConnection = false := by
  constructor
  · intro h
    cases refuses with
    | true => exact absurd (h 1 refusedMoves) (not_live_refused overConnection)
    | false =>
      cases overConnection with
      | true => exact absurd (h 1 overConnectionMoves) not_live_overConnection
      | false => exact ⟨rfl, rfl⟩
  · rintro ⟨rfl, rfl⟩ threads moves
    exact live_of_ordered (ordered_run ranked_body (ordered_start threads) moves)

end LockUse

end VeyraCam
