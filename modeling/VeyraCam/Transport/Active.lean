import VeyraCam.Transport.Handoff

/-! # The active transport

The active transport is a pointer of its own beside the map of transports. A second
transport of a type takes the place of the first in the map, but not always that of
the active transport; and a pinned type is only looked up when it is pinned.
-/

namespace VeyraCam

namespace AutoTransportManager

variable {objects : ℕ → Transport} {m : AutoTransportManager}

@[simp] theorem isConnected_some_iff {id : ℕ} :
    isConnected objects (some id) = true ↔ (objects id).state = .connected := by
  simp [isConnected]

theorem not_isConnected_iff {transport : Option ℕ} :
    isConnected objects transport = false ↔
      ∀ id ∈ transport, (objects id).state ≠ .connected := by
  cases transport <;> simp [isConnected]

theorem registerTransport_cases (objects : ℕ → Transport) (m : AutoTransportManager) (new : ℕ) :
    ((∀ old ∈ m.activeTransport, (objects old).state ≠ .connected) ∧
      (objects new).state = .connected ∧
      m.registerTransport objects (some new) =
        { m with
          transports := m.transports.insert (objects new).type new
          activeTransport := some new }) ∨
    ((objects new).state = .connected →
        ∃ old, m.activeTransport = some old ∧ (objects old).state = .connected) ∧
      m.registerTransport objects (some new) =
        { m with transports := m.transports.insert (objects new).type new } := by
  rw [registerTransport]
  split_ifs with h
  · rw [Bool.and_eq_true, Bool.not_eq_true', not_isConnected_iff, isConnected_some_iff] at h
    exact .inl ⟨h.1, h.2, rfl⟩
  · refine .inr ⟨fun hnew => ?_, rfl⟩
    have hnew' : isConnected objects (some new) = true := isConnected_some_iff.mpr hnew
    rw [hnew', Bool.and_true, Bool.not_eq_true', not_isConnected_iff] at h
    simpa using h

theorem setPreferredTransportMode_cases (objects : ℕ → Transport) (m : AutoTransportManager)
    (mode : TransportType) :
    (∃ id, m.transports.find? mode = some id ∧
      m.setPreferredTransportMode objects mode =
        { m with preferredMode := mode, activeTransport := some id }) ∨
    (mode ≠ .auto → ∀ id ∈ m.transports.find? mode, (objects id).state ≠ .connected) ∧
      m.setPreferredTransportMode objects mode = { m with preferredMode := mode } := by
  rw [setPreferredTransportMode]
  split_ifs with h
  · obtain ⟨-, hconnected⟩ := h
    cases hfind : m.transports.find? mode with
    | none => simp [hfind, isConnected] at hconnected
    | some id => exact .inl ⟨id, rfl, rfl⟩
  · refine .inr ⟨fun hmode => not_isConnected_iff.mp ?_, rfl⟩
    simpa [hmode] using h

theorem evaluateAndHandoff_manager_cases (objects : ℕ → Transport) (m : AutoTransportManager) :
    (m.evaluateAndHandoff objects).1 = m ∨
    m.preferredMode = .auto ∧ ∃ type id, m.transports.find? type = some id ∧
      (m.evaluateAndHandoff objects).1 = { m with activeTransport := some id } := by
  by_cases h : m.preferredMode = .auto ∧ m.isHandoffInProgress = false
  · rcases evaluateAndHandoff_cases objects h.1 h.2 with
      ⟨-, -, heval⟩ | ⟨type, id, hbest, -, heval⟩ <;> rw [heval]
    · exact .inl rfl
    · split_ifs
      · exact .inl rfl
      · exact .inr ⟨h.1, type, id, hbest.registered, rfl⟩
  · have hcond : (m.isHandoffInProgress || m.preferredMode ≠ .auto) = true := by
      rw [not_and_or, Bool.not_eq_false] at h
      simpa [or_comm] using h
    rw [evaluateAndHandoff, if_pos hcond]
    exact .inl rfl

theorem initiateHandoff_manager_cases (objects : ℕ → Transport) (m : AutoTransportManager)
    (targetType : TransportType) :
    (m.initiateHandoff objects targetType).1 = m ∨
    ∃ id, m.transports.find? targetType = some id ∧
      (m.initiateHandoff objects targetType).1 = { m with activeTransport := some id } := by
  rw [initiateHandoff]
  split_ifs with h
  · cases hfind : m.transports.find? targetType with
    | none => simp [hfind, isConnected] at h
    | some id => exact .inr ⟨id, rfl, rfl⟩
  · exact .inl rfl

theorem transports_evaluateAndHandoff (objects : ℕ → Transport) (m : AutoTransportManager) :
    (m.evaluateAndHandoff objects).1.transports = m.transports := by
  rcases m.evaluateAndHandoff_manager_cases objects with hs | ⟨-, _, _, -, hs⟩ <;> rw [hs]

theorem transports_initiateHandoff (objects : ℕ → Transport) (m : AutoTransportManager)
    (targetType : TransportType) :
    (m.initiateHandoff objects targetType).1.transports = m.transports := by
  rcases m.initiateHandoff_manager_cases objects targetType with hs | ⟨_, -, hs⟩ <;> rw [hs]

end AutoTransportManager

namespace TransportSystem

def Typed (s : TransportSystem) : Prop :=
  ∀ type id, s.manager.transports.find? type = some id → (s.objects id).type = type

/-- The active transport, if there is one, is the one registered under its type. -/
def ActiveRegistered (s : TransportSystem) : Prop :=
  ∀ id ∈ s.manager.activeTransport, s.manager.transports.find? (s.objects id).type = some id

/-- No other transport is registered in place of the active one, unless the new one is connected
and the active one is not. -/
def KeepsActive (s : TransportSystem) : TransportEvent → Prop
  | .registerTransport (some new) =>
    ∀ old ∈ s.manager.activeTransport, (s.objects old).type = (s.objects new).type →
      old = new ∨ (s.objects old).state ≠ .connected ∧ (s.objects new).state = .connected
  | _ => True

variable {s : TransportSystem}

theorem type_update (s : TransportSystem) (transport : ℕ) (f : Transport → Transport) (id : ℕ) :
    ((s.update transport f).objects id).type = (s.objects id).type := by
  change (Function.update s.objects transport _ id).type = _
  rw [Function.update_apply]
  split_ifs with h
  · rw [h]
  · rfl

theorem Typed.find? (h : s.Typed) {type : TransportType} {id : ℕ}
    (hfind : s.manager.transports.find? type = some id) :
    s.manager.transports.find? (s.objects id).type = some id := by
  rwa [h type id hfind]

theorem Typed.of_transports {s' : TransportSystem} (h : s.Typed)
    (htransports : s'.manager.transports = s.manager.transports)
    (htypes : ∀ id, (s'.objects id).type = (s.objects id).type) : s'.Typed := by
  rintro type id hfind
  rw [htransports] at hfind
  exact (htypes id).trans (h type id hfind)

theorem Typed.registerTransport (h : s.Typed) (new : ℕ) :
    (s.step (.registerTransport (some new))).1.Typed := by
  rintro type id hfind
  change (s.manager.transports.insert (s.objects new).type new).find? type = some id at hfind
  rw [OrderedMap.find?_insert] at hfind
  split_ifs at hfind with htype
  · obtain rfl := Option.some.inj hfind
    exact htype.symm
  · exact h type id hfind

theorem Typed.step (h : s.Typed) (e : TransportEvent) : (s.step e).1.Typed := by
  cases e with
  | registerTransport transport =>
    cases transport with
    | none => exact h
    | some new => exact h.registerTransport new
  | setPreferredTransportMode mode => exact h
  | evaluateAndHandoff =>
    exact h.of_transports (s.manager.transports_evaluateAndHandoff s.objects) fun _ => rfl
  | initiateHandoff targetType =>
    exact h.of_transports (s.manager.transports_initiateHandoff s.objects targetType) fun _ => rfl
  | stateChanged transport state =>
    exact h.of_transports rfl (s.type_update transport ({ · with state }))
  | metricsChanged transport metrics =>
    exact h.of_transports rfl (s.type_update transport ({ · with metrics }))

theorem activeRegistered_update (transport : ℕ) (f : Transport → Transport) :
    (s.update transport f).ActiveRegistered ↔ s.ActiveRegistered := by
  simp only [ActiveRegistered, type_update]
  rfl

theorem ActiveRegistered.registerTransport_iff (h : s.ActiveRegistered) (new : ℕ) :
    (s.step (.registerTransport (some new))).1.ActiveRegistered ↔
      s.KeepsActive (.registerTransport (some new)) := by
  have hfind (id : ℕ) : (s.manager.transports.insert (s.objects new).type new).find?
      (s.objects id).type = if (s.objects id).type = (s.objects new).type then some new
        else s.manager.transports.find? (s.objects id).type := OrderedMap.find?_insert ..
  rw [step, ActiveRegistered, KeepsActive]
  dsimp only
  rcases s.manager.registerTransport_cases s.objects new with
    ⟨hidle, hnew, hs⟩ | ⟨hbusy, hs⟩ <;> rw [hs]
  · refine iff_of_true ?_ fun old hold _ => .inr ⟨hidle old hold, hnew⟩
    rintro id hid
    obtain rfl := Option.some.inj hid
    exact OrderedMap.find?_insert_self ..
  · refine forall₂_congr fun old hold => ?_
    dsimp only
    rw [hfind]
    split_ifs with htype
    · rw [Option.some.injEq, forall_prop_of_true htype, eq_comm]
      refine (or_iff_left ?_).symm
      rintro ⟨hold', hnew⟩
      obtain ⟨active, hactive, hconnected⟩ := hbusy hnew
      obtain rfl := Option.some.inj (hactive.symm.trans hold)
      exact hold' hconnected
    · exact iff_of_true (h old hold) fun htype' => absurd htype' htype

theorem Typed.activeRegistered_of_find? (h : s.Typed) {type : TransportType} {id : ℕ}
    (hfind : s.manager.transports.find? type = some id) {mode : TransportType} {busy : Bool} :
    ActiveRegistered { s with manager := ⟨s.manager.transports, some id, mode, busy⟩ } := by
  rintro active hactive
  obtain rfl := Option.some.inj hactive
  exact h.find? hfind

theorem ActiveRegistered.step_iff (h : s.ActiveRegistered) (htyped : s.Typed)
    (e : TransportEvent) : (s.step e).1.ActiveRegistered ↔ s.KeepsActive e := by
  cases e with
  | registerTransport transport =>
    cases transport with
    | none => exact iff_of_true h trivial
    | some new => exact h.registerTransport_iff new
  | setPreferredTransportMode mode =>
    refine iff_of_true ?_ trivial
    rw [step]
    rcases s.manager.setPreferredTransportMode_cases s.objects mode with ⟨id, hid, hs⟩ | ⟨-, hs⟩ <;>
      rw [hs]
    · exact htyped.activeRegistered_of_find? hid
    · exact h
  | evaluateAndHandoff =>
    refine iff_of_true ?_ trivial
    change ActiveRegistered { s with manager := (s.manager.evaluateAndHandoff s.objects).1 }
    rcases s.manager.evaluateAndHandoff_manager_cases s.objects with hs | ⟨-, type, id, hid, hs⟩ <;>
      rw [hs]
    · exact h
    · exact htyped.activeRegistered_of_find? hid
  | initiateHandoff targetType =>
    refine iff_of_true ?_ trivial
    change ActiveRegistered { s with manager := (s.manager.initiateHandoff s.objects targetType).1 }
    rcases s.manager.initiateHandoff_manager_cases s.objects targetType with hs | ⟨id, hid, hs⟩ <;>
      rw [hs]
    · exact h
    · exact htyped.activeRegistered_of_find? hid
  | stateChanged | metricsChanged =>
    exact iff_of_true ((activeRegistered_update _ _).mpr h) trivial

/-- What is sent goes out on a registered transport, which the destructor closes. -/
theorem ActiveRegistered.mem_closes (h : s.ActiveRegistered) :
    (∀ id ∈ s.manager.activeTransport, id ∈ s.manager.closes) ∧
      ∀ id ∈ s.manager.sendsOn s.objects,
        s.manager.transports.find? (s.objects id).type = some id := by
  constructor
  · rintro id hid
    exact List.mem_map_of_mem (f := (·.2)) (OrderedMap.mem_entries_of_find? (h id hid))
  · rintro id hid
    exact h id (Option.mem_filter_iff.mp hid).1

/-- In a run of calls and changes of transports from the construction of the manager on, no
transport is registered in place of the active one that stays active exactly when, in every state
that is reached, the active transport is the one registered under its type. -/
theorem active_registered_iff (objects : ℕ → Transport) (events : List TransportEvent) :
    Machine.Guarded step KeepsActive { objects } events ↔
      ∀ pre, pre <+: events → (Machine.exec step { objects } pre).1.ActiveRegistered := by
  refine Machine.guarded_iff_forall_reached
    (I := fun s : TransportSystem => s.Typed ∧ s.ActiveRegistered) ?_ ?_ ?_ ?_ _
  · rintro s e ⟨htyped, h⟩ he
    exact ⟨htyped.step e, (h.step_iff htyped e).mpr he⟩
  · exact fun s h => h.2
  · exact fun s e h he => (h.2.step_iff h.1 e).mp he
  · constructor
    · rintro type id hfind
      cases hfind
    · rintro id hid
      cases hid

/-- After a second USB transport has been registered, the first is still sent on, and would not be
closed. -/
theorem active_replaced :
    let s := (Machine.exec step { objects := fun _ => { type := .usb, state := .connected } }
      [.registerTransport (some 0), .registerTransport (some 1)]).1
    ¬ s.ActiveRegistered ∧ s.manager.sendsOn s.objects = some 0 ∧ s.manager.closes = [1] := by
  refine ⟨fun h => ?_, by decide, by decide⟩
  exact absurd (h 0 rfl) (by decide)

end TransportSystem

end VeyraCam
