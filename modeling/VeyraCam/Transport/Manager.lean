import VeyraCam.Library.FirstLeast
import VeyraCam.Library.Machine
import VeyraCam.Library.OrderedMap
import VeyraCam.Transport.Transport

/-! # The transport manager

`AutoTransportManager` keeps one transport for each type and sends on one of them.
Transports are numbered, so that a number stands for the object that a shared
pointer holds; what the objects tell is apart from the manager, for it changes
without it. A handoff callback that is not set is taken to do nothing.
-/

namespace VeyraCam

structure AutoTransportManager where
  transports : OrderedMap TransportType ℕ := ∅
  activeTransport : Option ℕ := none
  preferredMode : TransportType := .auto
  isHandoffInProgress : Bool := false
  deriving DecidableEq

structure HandoffCompleted where
  oldTransport : TransportType
  newTransport : TransportType
  deriving DecidableEq

namespace AutoTransportManager

variable (objects : ℕ → Transport)

def isConnected (transport : Option ℕ) : Bool :=
  match transport with
  | none => false
  | some id => (objects id).state = .connected

def registerTransport (m : AutoTransportManager) (transport : Option ℕ) : AutoTransportManager :=
  match transport with
  | none => m
  | some id =>
    { m with
      transports := m.transports.insert (objects id).type id
      activeTransport :=
        if !isConnected objects m.activeTransport && isConnected objects (some id) then some id
        else m.activeTransport }

def setPreferredTransportMode (m : AutoTransportManager) (mode : TransportType) :
    AutoTransportManager :=
  { m with
    preferredMode := mode
    activeTransport :=
      if mode ≠ .auto ∧ isConnected objects (m.transports.find? mode) then m.transports.find? mode
      else m.activeTransport }

def getActiveTransportType (m : AutoTransportManager) : TransportType :=
  match m.activeTransport with
  | none => .auto
  | some id => (objects id).type

/-- The transport on which `AutoTransportManager::SendPacket` sends, if it does. -/
def sendsOn (m : AutoTransportManager) : Option ℕ :=
  m.activeTransport.filter fun id => isConnected objects (some id)

/-- The transports that the destructor closes. -/
def closes (m : AutoTransportManager) : List ℕ := m.transports.entries.map (·.2)

def baseScore : TransportType → ℕ
  | .usb => 10
  | .wifiLan => 20
  | .wifiDirect => 30
  | .bluetooth => 50
  | .auto => 100

/-- `AutoTransportManager::CalculateRank`, with exact metrics and truncating casts. -/
def calculateRank (type : TransportType) (metrics : TransportMetrics) : ℕ :=
  baseScore type + (⌊metrics.rttMs⌋₊ + ⌊metrics.packetLossPercent * 5⌋₊)

/-- The score of an entry, if its transport is a candidate. -/
def score (entry : TransportType × ℕ) : Option ℕ :=
  if isConnected objects (some entry.2) then
    some (calculateRank entry.1 (objects entry.2).metrics)
  else none

/-- The loop of `EvaluateAndHandoff`, with the best candidate and its score. -/
def bestCandidate (m : AutoTransportManager) : Option (TransportType × ℕ) × ℕ :=
  m.transports.entries.foldl (keepLeast (score objects)) (none, 99999)

/-- `AutoTransportManager::EvaluateAndHandoff`, with its result. -/
def evaluateAndHandoff (m : AutoTransportManager) :
    AutoTransportManager × List HandoffCompleted × Bool :=
  if m.isHandoffInProgress || m.preferredMode ≠ .auto then (m, [], false)
  else
    match (m.bestCandidate objects).1 with
    | none => (m, [], false)
    | some (_, id) =>
      if m.activeTransport = some id then (m, [], false)
      else
        ({ m with activeTransport := some id },
          [⟨m.getActiveTransportType objects, (objects id).type⟩], true)

def initiateHandoff (m : AutoTransportManager) (targetType : TransportType) :
    AutoTransportManager × List HandoffCompleted × Bool :=
  if isConnected objects (m.transports.find? targetType) then
    ({ m with activeTransport := m.transports.find? targetType },
      [⟨m.getActiveTransportType objects, targetType⟩], true)
  else (m, [], false)

end AutoTransportManager

/-- The manager with what its transports tell. -/
structure TransportSystem where
  manager : AutoTransportManager := {}
  objects : ℕ → Transport

inductive TransportEvent where
  | registerTransport (transport : Option ℕ)
  | setPreferredTransportMode (mode : TransportType)
  | evaluateAndHandoff
  | initiateHandoff (targetType : TransportType)
  /-- A transport changes its state of itself. -/
  | stateChanged (transport : ℕ) (state : TransportState)
  | metricsChanged (transport : ℕ) (metrics : TransportMetrics)
  deriving DecidableEq

namespace TransportSystem

def update (s : TransportSystem) (transport : ℕ) (f : Transport → Transport) : TransportSystem :=
  { s with
    objects := Function.update s.objects transport
      { f (s.objects transport) with type := (s.objects transport).type } }

def step (s : TransportSystem) : TransportEvent → TransportSystem × List HandoffCompleted
  | .registerTransport transport =>
    ({ s with manager := s.manager.registerTransport s.objects transport }, [])
  | .setPreferredTransportMode mode =>
    ({ s with manager := s.manager.setPreferredTransportMode s.objects mode }, [])
  | .evaluateAndHandoff =>
    let (manager, outputs, _) := s.manager.evaluateAndHandoff s.objects
    ({ s with manager }, outputs)
  | .initiateHandoff targetType =>
    let (manager, outputs, _) := s.manager.initiateHandoff s.objects targetType
    ({ s with manager }, outputs)
  | .stateChanged transport state => (s.update transport ({ · with state }), [])
  | .metricsChanged transport metrics => (s.update transport ({ · with metrics }), [])

end TransportSystem

end VeyraCam
