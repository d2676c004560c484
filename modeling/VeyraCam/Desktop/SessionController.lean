import VeyraCam.Desktop.Pairing

/-! # The desktop's session controller

`DesktopSessionController` over `NativeDesktopSession` over the service manager.
A call of `connectDevice` is synchronous: it blocks the isolate until the TCP
connection is there or has failed. Statuses are posted to the isolate and
handled after it, in order. The controller takes the TCP connection for a
pairing, so it shows a device as paired before any status has been handled.
-/

namespace VeyraCam

/-- A status on its way to the isolate, with the connection that was open when it was posted. -/
structure PostedStatus where
  connection : Option ℕ
  text : Text
  deriving DecidableEq

/-- `NativeDesktopSession`, whose open callable delivers the statuses that are posted. -/
structure NativeDesktopSession where
  isInitialized : Bool := false
  isConnected : Bool := false
  posted : List PostedStatus := []
  deriving DecidableEq

/-- `NativeDesktopSession.initialize`, with whether `veyra_core_init` succeeds. -/
def NativeDesktopSession.initialize (s : NativeDesktopSession) (initOk : Bool) :
    NativeDesktopSession :=
  { s with isInitialized := s.isInitialized || initOk }

structure DesktopSessionController where
  isConnecting : Bool := false
  isConnected : Bool := false
  connectedDeviceIp : Option Text := none
  pairingStatus : Option Text := none
  session : NativeDesktopSession := {}
  manager : ServiceManager := {}
  /-- History: a `paired` status of the current connection has been handled, and no `pairing_error`
  status, failed connect or disconnect since. -/
  pairedHandled : Bool := false
  deriving DecidableEq

namespace DesktopSessionController

inductive Event where
  /-- `connectDevice` up to the call of `TcpControlClient::Connect`. -/
  | connectDevice (hostIp pin : Text) (initOk : Bool)
  /-- The return of that call, and the rest of `connectDevice`. -/
  | connectReturns (ok : Bool)
  /-- A `connectDevice` that throws before it reaches the service manager. -/
  | connectThrows (initOk : Bool)
  | disconnectDevice
  /-- A line of the open connection, read by its own thread. -/
  | controlLine (message : Text) (myKeys : KeyPair)
  /-- The isolate handles the next status. -/
  | handleStatus

variable (env : Platform)

/-- A step of the service manager, which posts its statuses. -/
def native (s : DesktopSessionController) (e : VeyraCam.Event) : DesktopSessionController :=
  let (manager, outputs) := s.manager.step env e
  let posted := outputs.filterMap fun
    | .status text => some ⟨manager.connection, text⟩
    | _ => none
  { s with manager, session := { s.session with posted := s.session.posted ++ posted } }

def connectFailed (s : DesktopSessionController) : DesktopSessionController :=
  { s with
    isConnecting := false
    isConnected := false
    session := { s.session with isConnected := false }
    pairedHandled := false }

def connectSucceeded (s : DesktopSessionController) : DesktopSessionController :=
  { s with
    isConnecting := false
    isConnected := true
    connectedDeviceIp := some s.manager.hostIp
    pairingStatus := some "paired".toList
    session := { s.session with isConnected := true } }

/-- What `connectDevice` does before it calls the service manager. The callable of the connection
before is closed, and what it has not delivered is dropped. -/
def beginConnect (s : DesktopSessionController) (initOk : Bool) : DesktopSessionController :=
  { s with
    isConnecting := true
    pairingStatus := some "connecting".toList
    session := { s.session.initialize initOk with posted := [] }
    pairedHandled := false }

/-- The first part of `DesktopSessionController.connectDevice`, with what the call returns if it
does so at once. -/
def connectDevice (s : DesktopSessionController) (hostIp pin : Text) (initOk : Bool) :
    DesktopSessionController × List Bool :=
  if s.isConnecting || s.isConnected then (s, [false])
  else if (s.beginConnect initOk).session.isInitialized then
    ((s.beginConnect initOk).native env (.connectBegin hostIp pin true), [])
  else ((s.beginConnect initOk).connectFailed, [false])

def connectThrows (s : DesktopSessionController) (initOk : Bool) :
    DesktopSessionController × List Bool :=
  if s.isConnecting || s.isConnected then (s, [false])
  else
    ({ s.beginConnect initOk with
      isConnecting := false
      isConnected := false
      pairingStatus := some "error".toList }, [false])

/-- `DesktopSessionController.disconnectDevice`. It leaves the pairing status as it is. -/
def disconnectDevice (s : DesktopSessionController) : DesktopSessionController :=
  let s := if s.session.isConnected then
      { s.native env .disconnectDevice with
        session := { s.session with isConnected := false } }
    else s
  { s with isConnected := false, connectedDeviceIp := none, pairedHandled := false }

def handlePairingStatus (s : DesktopSessionController) (status : Text) :
    DesktopSessionController :=
  let s := { s with pairingStatus := some status }
  let s := if status = "paired".toList ∧ s.isConnected = false then
      { s with isConnected := true, isConnecting := false }
    else s
  if "pairing_error".toList.isPrefixOf status then
    { s with isConnecting := false, isConnected := false }
  else s

def noteStatus (s : DesktopSessionController) (status : PostedStatus) : Bool :=
  if status.text = "paired".toList then
    s.pairedHandled || (status.connection.isSome && status.connection = s.manager.connection)
  else s.pairedHandled && !"pairing_error".toList.isPrefixOf status.text

/-- One event, with what a call of `connectDevice` returns. The isolate does nothing else while
one is under way. -/
def step (s : DesktopSessionController) : Event → DesktopSessionController × List Bool
  | .connectDevice hostIp pin initOk =>
    if s.manager.connecting then (s, []) else s.connectDevice env hostIp pin initOk
  | .connectReturns ok =>
    if !s.manager.connecting then (s, [])
    else if ok then ((s.native env (.connectEnd true)).connectSucceeded, [true])
    else ((s.native env (.connectEnd false)).connectFailed, [false])
  | .connectThrows initOk =>
    if s.manager.connecting then (s, []) else s.connectThrows initOk
  | .disconnectDevice => (if s.manager.connecting then s else s.disconnectDevice env, [])
  | .controlLine message myKeys => (s.native env (.controlLine message myKeys), [])
  | .handleStatus =>
    match s.manager.connecting, s.session.posted with
    | false, status :: posted =>
      ({ s.handlePairingStatus status.text with
          session := { s.session with posted }
          pairedHandled := s.noteStatus status }, [])
    | _, _ => (s, [])

/-- The device is shown as connected or paired only when it is paired. -/
def ShowsPairing (s : DesktopSessionController) : Prop :=
  s.isConnected = true ∨ s.pairingStatus = some "paired".toList → s.pairedHandled = true

def Fails (s : DesktopSessionController) : Event → Prop
  | .connectReturns ok => s.manager.connecting = true → ok = false
  | _ => True

structure Offline (s : DesktopSessionController) : Prop where
  isConnected : s.isConnected = false
  pairingStatus : s.pairingStatus ≠ some "paired".toList
  pairedHandled : s.pairedHandled = false
  connection : s.manager.connection = none
  posted : ∀ status ∈ s.session.posted, status.text ≠ "paired".toList

variable {env} {s : DesktopSessionController}

theorem Offline.native (h : s.Offline) {e : VeyraCam.Event}
    (hconnection : (s.manager.step env e).1.connection = none)
    (hposted : .status "paired".toList ∉ (s.manager.step env e).2) : (s.native env e).Offline := by
  refine ⟨h.isConnected, h.pairingStatus, h.pairedHandled, hconnection, fun status hstatus => ?_⟩
  rcases List.mem_append.mp hstatus with hold | hnew
  · exact h.posted status hold
  · obtain ⟨output, houtput, hmap⟩ := List.mem_filterMap.mp hnew
    cases output with
    | status text =>
      obtain rfl := Option.some.inj hmap
      rintro rfl
      exact hposted houtput
    | sendControlMessage | decodeFrame => cases hmap

theorem Offline.connectFailed (h : s.Offline) : s.connectFailed.Offline :=
  ⟨rfl, h.pairingStatus, rfl, h.connection, h.posted⟩

theorem Offline.beginConnect (h : s.Offline) (initOk : Bool) : (s.beginConnect initOk).Offline where
  isConnected := h.isConnected
  pairingStatus hstatus := absurd (Option.some.inj hstatus) (by decide)
  pairedHandled := rfl
  connection := h.connection
  posted _ hnone := by cases hnone

theorem Offline.connectDevice (h : s.Offline) (hostIp pin : Text) (initOk : Bool) :
    (s.connectDevice env hostIp pin initOk).1.Offline := by
  have hbegun := h.beginConnect initOk
  unfold DesktopSessionController.connectDevice
  split_ifs
  · exact h
  · dsimp only
    refine hbegun.native ?_ ?_
    · rw [ServiceManager.step]
      split_ifs
      · exact h.connection
      · exact h.connection
    · rw [ServiceManager.step]
      split_ifs <;> exact List.not_mem_nil
  · exact hbegun.connectFailed

theorem Offline.connectThrows (h : s.Offline) (initOk : Bool) :
    (s.connectThrows initOk).1.Offline := by
  unfold DesktopSessionController.connectThrows
  split_ifs
  · exact h
  · have hbegun := h.beginConnect initOk
    refine ⟨rfl, fun hstatus => ?_, rfl, hbegun.connection, hbegun.posted⟩
    exact absurd (Option.some.inj hstatus) (by decide)

theorem Offline.disconnectDevice (h : s.Offline) : (s.disconnectDevice env).Offline := by
  unfold DesktopSessionController.disconnectDevice
  dsimp only
  split_ifs
  · exact ⟨rfl, h.pairingStatus, rfl, rfl, h.posted⟩
  · exact ⟨rfl, h.pairingStatus, rfl, h.connection, h.posted⟩

theorem Offline.connectEnd (h : s.Offline) : (s.native env (.connectEnd false)).Offline := by
  refine h.native ?_ ?_
  · rw [ServiceManager.step]
    cases s.manager.connecting with
    | false => exact h.connection
    | true => rfl
  · rw [ServiceManager.step]
    cases s.manager.connecting with
    | false => exact List.not_mem_nil
    | true =>
      change _ ∉ s.manager.report _
      unfold ServiceManager.report
      split_ifs
      · intro hmem
        exact absurd (Output.status.inj (List.mem_singleton.mp hmem)) (by decide)
      · exact List.not_mem_nil

theorem Offline.controlLine (h : s.Offline) (message : Text) (myKeys : KeyPair) :
    (s.native env (.controlLine message myKeys)).Offline := by
  have hnothing : s.manager.step env (.controlLine message myKeys) = (s.manager, []) := by
    rw [ServiceManager.step, h.connection]
    rfl
  refine h.native ?_ ?_
  · rw [hnothing]
    exact h.connection
  · rw [hnothing]
    exact List.not_mem_nil

theorem handlePairingStatus_manager (s : DesktopSessionController) (status : Text) :
    (s.handlePairingStatus status).manager = s.manager := by
  unfold handlePairingStatus
  dsimp only
  split_ifs <;> rfl

theorem handlePairingStatus_pairingStatus (s : DesktopSessionController) (status : Text) :
    (s.handlePairingStatus status).pairingStatus = some status := by
  unfold handlePairingStatus
  dsimp only
  split_ifs <;> rfl

theorem handlePairingStatus_isConnected (h : s.isConnected = false) {status : Text}
    (hne : status ≠ "paired".toList) : (s.handlePairingStatus status).isConnected = false := by
  unfold handlePairingStatus
  dsimp only
  split_ifs with _ hpaired hpaired
  · rfl
  · rfl
  · exact absurd hpaired.1 hne
  · exact h

theorem Offline.handleStatus (h : s.Offline) {status : PostedStatus}
    {posted : List PostedStatus} (hposted : s.session.posted = status :: posted) :
    Offline { s.handlePairingStatus status.text with
      session := { s.session with posted }
      pairedHandled := s.noteStatus status } := by
  have hall := h.posted
  rw [hposted, List.forall_mem_cons] at hall
  obtain ⟨htext, hrest⟩ := hall
  refine ⟨handlePairingStatus_isConnected h.isConnected htext, ?_, ?_, ?_, hrest⟩
  · dsimp only
    rw [handlePairingStatus_pairingStatus]
    exact fun hstatus => htext (Option.some.inj hstatus)
  · dsimp only
    rw [noteStatus, if_neg htext, h.pairedHandled]
    rfl
  · dsimp only
    rw [handlePairingStatus_manager]
    exact h.connection

/-- While no TCP connection comes about, no status says that the device is paired. -/
theorem Offline.step (h : s.Offline) {e : Event} (hg : s.Fails e) : (s.step env e).1.Offline := by
  cases e with
  | connectDevice hostIp pin initOk =>
    rw [DesktopSessionController.step]
    split_ifs
    · exact h
    · exact h.connectDevice hostIp pin initOk
  | connectReturns ok =>
    rw [DesktopSessionController.step]
    split_ifs with hidle hok
    · exact h
    · cases hok.symm.trans (hg (by simpa using hidle))
    · exact h.connectEnd.connectFailed
  | connectThrows initOk =>
    rw [DesktopSessionController.step]
    split_ifs
    · exact h
    · exact h.connectThrows initOk
  | disconnectDevice =>
    rw [DesktopSessionController.step]
    dsimp only
    split_ifs
    · exact h
    · exact h.disconnectDevice
  | controlLine message myKeys => exact h.controlLine message myKeys
  | handleStatus =>
    rw [DesktopSessionController.step]
    split
    · next hposted => exact h.handleStatus hposted
    · exact h

theorem Offline.showsPairing (h : s.Offline) : s.ShowsPairing := by
  rintro (hconnected | hstatus)
  · cases h.isConnected.symm.trans hconnected
  · exact absurd hstatus h.pairingStatus

theorem Offline.fails (h : s.Offline) {e : Event} (hs : (s.step env e).1.ShowsPairing) :
    s.Fails e := by
  cases e with
  | connectReturns ok =>
    intro hconnecting
    by_contra hok
    rw [Bool.not_eq_false] at hok
    rw [DesktopSessionController.step, hconnecting, hok] at hs
    cases h.pairedHandled.symm.trans (hs (.inl rfl))
  | _ => trivial

/-- In every run from the creation of the controller on, no TCP connection is made exactly when, in
every state that is reached, the device is shown as connected or paired only when it is paired. -/
theorem showsPairing_iff_fails (env : Platform) (isInitialized : Bool) (events : List Event) :
    Machine.Guarded (step env) Fails { session := { isInitialized } } events ↔
      ∀ pre, pre <+: events →
        (Machine.exec (step env) { session := { isInitialized } } pre).1.ShowsPairing := by
  refine Machine.guarded_iff_forall_reached (I := Offline) ?_ ?_ ?_ ?_ _
  · exact fun s e h hg => h.step hg
  · exact fun s h => h.showsPairing
  · exact fun s e h hs => h.fails hs
  · exact ⟨rfl, by simp, rfl, rfl, fun _ hnone => by cases hnone⟩

set_option maxRecDepth 100000 in
/-- The TCP connection is there and no status has been handled; and the status is still shown after
the device is disconnected. -/
theorem not_showsPairing_connected :
    let connected := (Machine.exec (step .sample) {}
      [.connectDevice "10.0.0.2".toList "1234".toList true, .connectReturns true]).1
    ¬ connected.ShowsPairing ∧ ¬ (connected.disconnectDevice .sample).ShowsPairing := by
  intro connected
  constructor
  · exact fun h => absurd (h (.inl (by decide))) (by decide)
  · exact fun h => absurd (h (.inr (by decide))) (by decide)

end DesktopSessionController

end VeyraCam
