import Mathlib.Data.List.Basic
import VeyraCam.Library.Machine
import VeyraCam.Protocol.Bytes

/-! # The camera lock

`Camera2Controller` opens and closes a camera device under a semaphore of one
permit. The permit of an open is given back by the callback that ends it, but
also by callbacks that come later and by the handlers of exceptions that come
before it was taken: the semaphore then has two permits.
-/

namespace VeyraCam

namespace Camera2Controller

inductive LensFacing where
  | front
  | back
  | external
  deriving DecidableEq

/-- A camera of the system, with the facing that its characteristics give. -/
structure CameraInfo where
  id : Text
  facing : Option LensFacing
  deriving DecidableEq

structure OpenRequest where
  facingBack : Bool := true
  fps : ℤ := 30
  codecSurface : ℕ
  previewSurface : Option ℕ := none
  deriving DecidableEq

/-- What has come of an open that was requested of the system. -/
inductive DeviceStage where
  | requested
  | opened
  | ended
  deriving DecidableEq

/-- Where the call under way is. `openCamera` is `locking` in `tryAcquire` and `opening` after. -/
inductive CallStage where
  | idle
  | locking
  | opening
  | closing
  deriving DecidableEq

inductive LockResult where
  | acquired
  | timedOut
  | interrupted
  deriving DecidableEq

/-- How the rest of `openCamera` ends. Android may register an open that throws, and report it to
its callback as well. -/
inductive OpenResult where
  | listingThrows
  | openingThrows (cameras : List CameraInfo) (registered : Bool)
  | requested (cameras : List CameraInfo)
  deriving DecidableEq

inductive Event where
  /-- `openCamera` up to `tryAcquire`. -/
  | openCamera (request : OpenRequest)
  | tryAcquire (result : LockResult)
  /-- The rest of `openCamera`. -/
  | openDevice (result : OpenResult)
  /-- `closeCamera` up to the end of `acquire`, which waits for a permit or is interrupted. -/
  | closeCamera (interrupted : Bool)
  /-- The rest of `closeCamera`, in which the device may throw. -/
  | closeDevice (throws : Bool)
  | onOpened (device : ℕ)
  | onDisconnected (device : ℕ)
  | onError (device : ℕ)
  | onConfigured
  deriving DecidableEq

inductive Output where
  | openCamera (cameraId : Text)
  | createCaptureSession (device : ℕ) (surfaces : List ℕ)
  | closeCaptureSession
  | closeDevice (device : ℕ)
  deriving DecidableEq

end Camera2Controller

open Camera2Controller

/-- `Camera2Controller`: its fields, and the stage of each open that was requested. -/
structure Camera2Controller where
  /-- The permits of `cameraOpenCloseLock`. -/
  permits : ℕ := 1
  call : CallStage := .idle
  devices : List DeviceStage := []
  cameraDevice : Option ℕ := none
  captureSession : Bool := false
  backgroundThread : Bool := false
  currentCameraId : Text := "0".toList
  encoderSurface : Option ℕ := none
  previewSurface : Option ℕ := none
  isBackFacing : Bool := true
  targetFps : ℤ := 30
  deriving DecidableEq

namespace Camera2Controller

def release (s : Camera2Controller) : Camera2Controller := { s with permits := s.permits + 1 }

/-- `openCamera` up to `tryAcquire`. -/
def openCamera (s : Camera2Controller) (request : OpenRequest) : Camera2Controller :=
  { s with
    call := .locking
    backgroundThread := true
    isBackFacing := request.facingBack
    targetFps := request.fps
    encoderSurface := some request.codecSurface
    previewSurface := request.previewSurface }

/-- The end of `tryAcquire`, with the `catch` of `openCamera` if there is no permit in time. -/
def tryAcquire (s : Camera2Controller) : LockResult → Camera2Controller
  | .acquired =>
    if s.permits = 0 then s else { s with permits := s.permits - 1, call := .opening }
  | .timedOut => if s.permits = 0 then { s.release with call := .idle } else s
  | .interrupted => { s.release with call := .idle }

def selectedId (cameras : List CameraInfo) (facingBack : Bool) : Text :=
  match cameras.find? (·.facing = some (if facingBack then .back else .front)) with
  | some camera => camera.id
  | none => (cameras.head?.map (·.id)).getD "0".toList

/-- The rest of `openCamera`. -/
def openDevice (s : Camera2Controller) : OpenResult → Camera2Controller × List Output
  | .listingThrows => ({ s.release with call := .idle }, [])
  | .openingThrows cameras registered =>
    ({ s.release with
        call := .idle
        currentCameraId := selectedId cameras s.isBackFacing
        devices := if registered then s.devices ++ [.requested] else s.devices },
      if registered then [.openCamera (selectedId cameras s.isBackFacing)] else [])
  | .requested cameras =>
    ({ s with
        call := .idle
        currentCameraId := selectedId cameras s.isBackFacing
        devices := s.devices ++ [.requested] },
      [.openCamera (selectedId cameras s.isBackFacing)])

def createCaptureSession (s : Camera2Controller) : List Output :=
  match s.cameraDevice, s.encoderSurface with
  | some device, some surface =>
    [.createCaptureSession device (surface :: s.previewSurface.toList)]
  | _, _ => []

def onOpened (s : Camera2Controller) (device : ℕ) : Camera2Controller × List Output :=
  let s := { s.release with
    devices := s.devices.set device .opened
    cameraDevice := some device }
  (s, s.createCaptureSession)

/-- `onDisconnected` and `onError` of `CameraDevice.StateCallback`. -/
def onEnded (s : Camera2Controller) (device : ℕ) : Camera2Controller × List Output :=
  ({ s.release with devices := s.devices.set device .ended, cameraDevice := none },
    [.closeDevice device])

def closeCaptureSession (s : Camera2Controller) : Camera2Controller × List Output :=
  ({ s with captureSession := false }, if s.captureSession then [.closeCaptureSession] else [])

/-- The rest of `closeCamera`, with its `finally`. -/
def closeDevice (s : Camera2Controller) (throws : Bool) : Camera2Controller × List Output :=
  let (s, outputs) := s.closeCaptureSession
  let closed := if throws then s else
    { s with cameraDevice := none, encoderSurface := none, previewSurface := none }
  ({ closed.release with call := .idle, backgroundThread := false },
    outputs ++ (s.cameraDevice.map Output.closeDevice).toList)

/-- One event. Calls come one after another; of each open there is at most one `onOpened`, and
at most one `onDisconnected` or `onError` after it or in its place. -/
def step (s : Camera2Controller) : Event → Camera2Controller × List Output
  | .openCamera request => (if s.call = .idle then s.openCamera request else s, [])
  | .tryAcquire result => (if s.call = .locking then s.tryAcquire result else s, [])
  | .openDevice result => if s.call = .opening then s.openDevice result else (s, [])
  | .closeCamera interrupted =>
    (if s.call = .idle then
      if interrupted then { s.release with backgroundThread := false }
      else if s.permits = 0 then s
      else { s with permits := s.permits - 1, call := .closing }
    else s, [])
  | .closeDevice throws => if s.call = .closing then s.closeDevice throws else (s, [])
  | .onOpened device =>
    if s.devices[device]? = some .requested then s.onOpened device else (s, [])
  | .onDisconnected device | .onError device =>
    match s.devices[device]? with
    | some .requested | some .opened => s.onEnded device
    | _ => (s, [])
  | .onConfigured => (if s.cameraDevice.isSome then { s with captureSession := true } else s, [])

/-- Nobody gives back a permit that it has not taken. -/
def OwnsPermit (s : Camera2Controller) : Event → Prop
  | .tryAcquire result =>
    s.call = .locking → result ≠ .interrupted ∧ (s.permits = 0 → result ≠ .timedOut)
  | .openDevice result => s.call = .opening → ∀ cameras, result ≠ .openingThrows cameras true
  | .closeCamera interrupted => s.call = .idle → interrupted = false
  | .onDisconnected device | .onError device => s.devices[device]? ≠ some .opened
  | _ => True

/-- The permits that a call under way has. -/
def CallStage.held : CallStage → ℕ
  | .idle | .locking => 0
  | .opening | .closing => 1

/-- The permits that are taken: by the call under way, and by each open that has no callback yet. -/
def taken (s : Camera2Controller) : ℕ := s.call.held + s.devices.count .requested

/-- All permits there are. -/
def account (s : Camera2Controller) : ℕ := s.permits + s.taken

variable {s : Camera2Controller} {e : Event}

theorem count_concat_requested (devices : List DeviceStage) :
    (devices ++ [DeviceStage.requested]).count .requested = devices.count .requested + 1 := by
  rw [List.count_append, List.count_singleton_self]

theorem count_set_requested {devices : List DeviceStage} {device : ℕ} {stage : DeviceStage}
    (h : devices[device]? = some .requested) (hstage : stage ≠ .requested) :
    (devices.set device stage).count .requested + 1 = devices.count .requested := by
  obtain ⟨hlt, hget⟩ := List.getElem?_eq_some_iff.mp h
  have hpos : 0 < devices.count .requested :=
    List.count_pos_iff.mpr (hget ▸ List.getElem_mem hlt)
  rw [List.count_set hlt, hget]
  simp only [beq_self_eq_true, if_true, beq_iff_eq, hstage, if_false]
  omega

theorem count_set_opened {devices : List DeviceStage} {device : ℕ} {stage : DeviceStage}
    (h : devices[device]? = some .opened) (hstage : stage ≠ .requested) :
    (devices.set device stage).count .requested = devices.count .requested := by
  obtain ⟨hlt, hget⟩ := List.getElem?_eq_some_iff.mp h
  rw [List.count_set hlt, hget]
  simp [hstage]

theorem account_onEnded {device : ℕ} (h : s.devices[device]? = some .requested) :
    (s.onEnded device).1.account = s.account := by
  have hcount : (s.devices.set device .ended).count .requested + 1 = s.devices.count .requested :=
    count_set_requested h (by decide)
  simp only [account, taken, onEnded, release]
  omega

theorem account_onOpened {device : ℕ} (h : s.devices[device]? = some .requested) :
    (s.onOpened device).1.account = s.account := by
  have hcount : (s.devices.set device .opened).count .requested + 1 = s.devices.count .requested :=
    count_set_requested h (by decide)
  simp only [account, taken, onOpened, release]
  omega

theorem account_onEnded_of_opened {device : ℕ} (h : s.devices[device]? = some .opened) :
    (s.onEnded device).1.account = s.account + 1 := by
  have hcount : (s.devices.set device .ended).count .requested = s.devices.count .requested :=
    count_set_opened h (by decide)
  simp only [account, taken, onEnded, release]
  omega

theorem account_tryAcquire (hcall : s.call = .locking) {result : LockResult}
    (h : result ≠ .interrupted ∧ (s.permits = 0 → result ≠ .timedOut)) :
    (s.tryAcquire result).account = s.account := by
  obtain ⟨hint, htime⟩ := h
  cases result with
  | acquired =>
    simp only [tryAcquire]
    split_ifs with hpermits
    · rfl
    · simp only [account, taken, hcall, CallStage.held]
      omega
  | timedOut =>
    have hpermits : s.permits ≠ 0 := fun hzero => htime hzero rfl
    simp only [tryAcquire, if_neg hpermits]
  | interrupted => exact absurd rfl hint

theorem account_openDevice (hcall : s.call = .opening) {result : OpenResult}
    (h : ∀ cameras, result ≠ .openingThrows cameras true) :
    (s.openDevice result).1.account = s.account := by
  cases result with
  | listingThrows =>
    simp only [account, taken, openDevice, release, hcall, CallStage.held]
    omega
  | requested cameras =>
    simp only [account, taken, openDevice, hcall, CallStage.held, count_concat_requested]
    omega
  | openingThrows cameras registered =>
    cases registered with
    | true => exact absurd rfl (h cameras)
    | false =>
      simp only [account, taken, openDevice, release, hcall, CallStage.held, Bool.false_eq_true,
        if_false]
      omega

theorem account_openDevice_registered (hcall : s.call = .opening) (cameras : List CameraInfo) :
    (s.openDevice (.openingThrows cameras true)).1.account = s.account + 1 := by
  simp only [account, taken, openDevice, release, hcall, CallStage.held, if_true,
    count_concat_requested]
  omega

theorem account_closeDevice (hcall : s.call = .closing) (throws : Bool) :
    (s.closeDevice throws).1.account = s.account := by
  cases throws with
  | false =>
    simp only [account, taken, closeDevice, closeCaptureSession, release, hcall, CallStage.held]
    simp only [Bool.false_eq_true, if_false]
    omega
  | true =>
    simp only [account, taken, closeDevice, closeCaptureSession, release, hcall, CallStage.held]
    simp only [if_true]
    omega

/-- A step in which permits are given back by their owners only keeps the account. -/
theorem account_step (h : OwnsPermit s e) : (step s e).1.account = s.account := by
  cases e with
  | openCamera request =>
    simp only [step]
    split_ifs with hcall
    · simp [openCamera, account, taken, hcall, CallStage.held]
    · rfl
  | tryAcquire result =>
    simp only [step]
    split_ifs with hcall
    · exact account_tryAcquire hcall (h hcall)
    · rfl
  | openDevice result =>
    simp only [step]
    split_ifs with hcall
    · exact account_openDevice hcall (h hcall)
    · rfl
  | closeCamera interrupted =>
    simp only [step]
    split_ifs with hcall hint hpermits
    · exact absurd hint (by simp [h hcall])
    · rfl
    · simp only [account, taken, hcall, CallStage.held]
      omega
    · rfl
  | closeDevice throws =>
    simp only [step]
    split_ifs with hcall
    · exact account_closeDevice hcall throws
    · rfl
  | onOpened device =>
    simp only [step]
    split_ifs with hdevice
    · exact account_onOpened hdevice
    · rfl
  | onDisconnected device | onError device =>
    simp only [step]
    split
    · exact account_onEnded ‹_›
    · exact absurd ‹_› h
    · rfl
  | onConfigured =>
    simp only [step]
    split_ifs <;> rfl

/-- Any other step adds a permit to it. -/
theorem account_step_of_not (h : ¬ OwnsPermit s e) : (step s e).1.account = s.account + 1 := by
  cases e with
  | tryAcquire result =>
    simp only [OwnsPermit, Classical.not_imp] at h
    obtain ⟨hcall, h⟩ := h
    cases result with
    | acquired => simp at h
    | timedOut =>
      have hpermits : s.permits = 0 := by simpa using h
      simp only [step, if_pos hcall, tryAcquire, if_pos hpermits]
      simp only [account, taken, release, hcall, CallStage.held]
      omega
    | interrupted =>
      simp only [step, if_pos hcall, tryAcquire]
      simp only [account, taken, release, hcall, CallStage.held]
      omega
  | openDevice result =>
    simp only [OwnsPermit, Classical.not_imp, not_forall, not_not] at h
    obtain ⟨hcall, cameras, rfl⟩ := h
    simp only [step, if_pos hcall]
    exact account_openDevice_registered hcall cameras
  | closeCamera interrupted =>
    simp only [OwnsPermit, Classical.not_imp, Bool.not_eq_false] at h
    obtain ⟨hcall, rfl⟩ := h
    simp only [step, if_pos hcall, if_true, account, taken, release]
    omega
  | onDisconnected device | onError device =>
    have hdevice : s.devices[device]? = some .opened := not_not.mp h
    simp only [step, hdevice]
    exact account_onEnded_of_opened hdevice
  | openCamera | closeDevice | onOpened | onConfigured => exact absurd trivial h

theorem exists_taken_step {n : ℕ} (h : s.taken = n + 1) :
    ∃ e, OwnsPermit s e ∧ (step s e).1.taken = n := by
  cases hcall : s.call with
  | idle | locking =>
    have hcount : s.devices.count .requested = n + 1 := by
      simpa [taken, hcall, CallStage.held] using h
    have hmem : .requested ∈ s.devices := List.count_pos_iff.mp (by omega)
    obtain ⟨device, hdevice⟩ := List.mem_iff_getElem?.mp hmem
    have hset : (s.devices.set device .opened).count .requested + 1 = s.devices.count .requested :=
      count_set_requested hdevice (by decide)
    refine ⟨.onOpened device, trivial, ?_⟩
    simp only [step, if_pos hdevice, onOpened, release, taken, hcall, CallStage.held]
    omega
  | opening =>
    refine ⟨.openDevice .listingThrows, fun _ _ => OpenResult.noConfusion, ?_⟩
    simp only [taken, hcall, CallStage.held] at h
    simp only [step, if_pos hcall, openDevice, release, taken, CallStage.held]
    omega
  | closing =>
    refine ⟨.closeDevice false, trivial, ?_⟩
    simp only [taken, hcall, CallStage.held] at h
    simp only [step, if_pos hcall, closeDevice, closeCaptureSession, release, taken, CallStage.held]
    simp
    omega

theorem exists_permits_eq_account (s : Camera2Controller) :
    ∃ more, Machine.Guarded step OwnsPermit s more ∧
      (Machine.exec step s more).1.permits = s.account := by
  induction htaken : s.taken generalizing s with
  | zero => exact ⟨[], trivial, by simp [account, htaken]⟩
  | succ n ih =>
    obtain ⟨e, howns, he⟩ := exists_taken_step htaken
    obtain ⟨more, hmore, hpermits⟩ := ih _ he
    exact ⟨e :: more, ⟨howns, hmore⟩, hpermits.trans (account_step howns)⟩

/-- Releases by owners keep at most one permit available, for all that comes while they go on. -/
def StaysMutex (s : Camera2Controller) : Prop :=
  ∀ more, Machine.Guarded step OwnsPermit s more → (Machine.exec step s more).1.permits ≤ 1

theorem staysMutex_iff : s.StaysMutex ↔ s.account ≤ 1 := by
  constructor
  · intro h
    obtain ⟨more, hmore, hpermits⟩ := exists_permits_eq_account s
    exact hpermits ▸ h more hmore
  · intro h more hmore
    have haccount : (Machine.exec step s more).1.account ≤ 1 :=
      (hmore.invariant (I := fun s => s.account ≤ 1) (P := fun _ => True)
        (fun _ _ hs howns => ⟨(account_step howns).le.trans hs, fun _ _ => trivial⟩) h).1
    exact (Nat.le_add_right _ _).trans haccount

/-- The lock is a mutex in every state of a run, and as long after as permits are given back by
their owners, exactly when in the run they are. -/
theorem forall_staysMutex_iff_ownsPermit (events : List Event) :
    (∀ pre, pre <+: events → (Machine.exec step {} pre).1.StaysMutex) ↔
      Machine.Guarded step OwnsPermit {} events := by
  refine (Machine.guarded_iff_forall_reached (I := fun s => s.account = 1) ?_ ?_ ?_ rfl events).symm
  · exact fun s e hs howns => (account_step howns).trans hs
  · exact fun s hs => staysMutex_iff.mpr hs.le
  · intro s e hs hmutex
    by_contra howns
    have haccount : (step s e).1.account ≤ 1 := staysMutex_iff.mp hmutex
    rw [account_step_of_not howns, hs] at haccount
    omega

/-- A device that is opened and then disconnected gives the permit of its open back twice. -/
theorem two_permits_after_onDisconnected :
    1 < (Machine.exec step {} [.openCamera { codecSurface := 0 }, .tryAcquire .acquired,
      .openDevice (.requested [⟨"0".toList, some .back⟩]), .onOpened 0,
      .onDisconnected 0]).1.permits := by
  decide

/-- So does an open that waits in vain for the permit of another. -/
example : 1 < (Machine.exec step {} [.openCamera { codecSurface := 0 }, .tryAcquire .acquired,
    .openDevice (.requested [⟨"0".toList, some .back⟩]),
    .openCamera { codecSurface := 1 }, .tryAcquire .timedOut, .onOpened 0]).1.permits := by
  decide

end Camera2Controller

end VeyraCam
