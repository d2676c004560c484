import VeyraCam.Transport.Active

/-! # The pinned transport

`SetPreferredTransportMode` makes the transport of the pinned type active if it is
connected already. Nothing looks for it later: a pinned transport that connects, or
is registered, while another one is in use stays aside.
-/

namespace VeyraCam

def TransportEvent.isInitiateHandoff : TransportEvent → Bool
  | .initiateHandoff _ => true
  | _ => false

namespace TransportSystem

/-- The transport of the pinned type, if there is a connected one, is the active one. -/
def HonoursPin (s : TransportSystem) : Prop :=
  s.manager.preferredMode ≠ .auto →
    ∀ id ∈ s.manager.transports.find? s.manager.preferredMode,
      (s.objects id).state = .connected → s.manager.activeTransport = some id

/-- The transport of the pinned type becomes available only as the active one. -/
def AvailableInUse (s : TransportSystem) : TransportEvent → Prop
  | .registerTransport (some new) =>
    s.manager.preferredMode ≠ .auto → (s.objects new).type = s.manager.preferredMode →
      (s.objects new).state = .connected →
        ∀ old ∈ s.manager.activeTransport, (s.objects old).state = .connected → old = new
  | .stateChanged transport state =>
    s.manager.preferredMode ≠ .auto →
      s.manager.transports.find? s.manager.preferredMode = some transport →
        state = .connected → s.manager.activeTransport = some transport
  | _ => True

variable {s : TransportSystem}

theorem honoursPin_evaluateAndHandoff_iff :
    (s.step .evaluateAndHandoff).1.HonoursPin ↔ s.HonoursPin := by
  change HonoursPin { s with manager := (s.manager.evaluateAndHandoff s.objects).1 } ↔ _
  rcases s.manager.evaluateAndHandoff_manager_cases s.objects with hs | ⟨hauto, _, _, -, hs⟩ <;>
    rw [hs]
  exact iff_of_true (absurd hauto) (absurd hauto)

theorem HonoursPin.registerTransport_iff (h : s.HonoursPin) (new : ℕ) :
    (s.step (.registerTransport (some new))).1.HonoursPin ↔
      s.AvailableInUse (.registerTransport (some new)) := by
  rw [step, HonoursPin, AvailableInUse]
  dsimp only
  rcases s.manager.registerTransport_cases s.objects new with
    ⟨hidle, hnew, hs⟩ | ⟨hbusy, hs⟩ <;> rw [hs] <;> dsimp only <;> rw [OrderedMap.find?_insert]
  · refine iff_of_true ?_ fun _ _ _ old hold hold' => absurd hold' (hidle old hold)
    rintro hpin id hid hconnected
    split_ifs at hid with htype
    · exact hid
    · exact absurd hconnected (hidle id (h hpin id hid hconnected))
  · refine forall_congr' fun hpin => ?_
    split_ifs with htype
    · rw [forall_prop_of_true htype.symm]
      simp only [Option.mem_def, Option.some.injEq, forall_eq']
      refine forall_congr' fun hnew => ?_
      obtain ⟨old, hold, hold'⟩ := hbusy hnew
      simp [hold, hold']
    · exact iff_of_true (h hpin) fun htype' => absurd htype'.symm htype

theorem state_update_self (s : TransportSystem) (transport : ℕ) (f : Transport → Transport) :
    ((s.update transport f).objects transport).state = (f (s.objects transport)).state := by
  change (Function.update s.objects transport _ transport).state = _
  rw [Function.update_self]

theorem objects_update_of_ne (s : TransportSystem) {transport id : ℕ} (h : id ≠ transport)
    (f : Transport → Transport) : (s.update transport f).objects id = s.objects id :=
  Function.update_of_ne h ..

theorem HonoursPin.stateChanged_iff (h : s.HonoursPin) (transport : ℕ) (state : TransportState) :
    (s.step (.stateChanged transport state)).1.HonoursPin ↔
      s.AvailableInUse (.stateChanged transport state) := by
  constructor
  · rintro hpinned hpin hfind hstate
    apply hpinned hpin transport hfind
    exact (s.state_update_self transport ({ · with state })).trans hstate
  · rintro havailable hpin id hid hconnected
    by_cases hne : id = transport
    · subst hne
      have hstate := s.state_update_self id ({ · with state })
      exact havailable hpin hid (hstate.symm.trans hconnected)
    · apply h hpin id hid
      have hsame := s.objects_update_of_ne hne ({ · with state })
      exact (congrArg (·.state) hsame).symm.trans hconnected

theorem HonoursPin.metricsChanged (h : s.HonoursPin) (transport : ℕ) (metrics : TransportMetrics) :
    (s.step (.metricsChanged transport metrics)).1.HonoursPin := by
  rintro hpin id hid hconnected
  apply h hpin id hid
  by_cases hne : id = transport
  · subst hne
    exact (s.state_update_self id ({ · with metrics })).symm.trans hconnected
  · have hsame := s.objects_update_of_ne hne ({ · with metrics })
    exact (congrArg (·.state) hsame).symm.trans hconnected

theorem honoursPin_setPreferredTransportMode (s : TransportSystem) (mode : TransportType) :
    (s.step (.setPreferredTransportMode mode)).1.HonoursPin := by
  rw [step, HonoursPin]
  rcases s.manager.setPreferredTransportMode_cases s.objects mode with
    ⟨id, hid, hs⟩ | ⟨hidle, hs⟩ <;> rw [hs]
  · rintro - id' hid' -
    exact hid.symm.trans hid'
  · rintro hpin id hid hconnected
    exact absurd hconnected (hidle hpin id hid)

theorem HonoursPin.step_iff (h : s.HonoursPin) {e : TransportEvent}
    (he : e.isInitiateHandoff = false) : (s.step e).1.HonoursPin ↔ s.AvailableInUse e := by
  cases e with
  | registerTransport transport =>
    cases transport with
    | none => exact iff_of_true h trivial
    | some new => exact h.registerTransport_iff new
  | setPreferredTransportMode mode =>
    exact iff_of_true (s.honoursPin_setPreferredTransportMode mode) trivial
  | evaluateAndHandoff => exact iff_of_true (honoursPin_evaluateAndHandoff_iff.mpr h) trivial
  | initiateHandoff targetType => cases he
  | stateChanged transport state => exact h.stateChanged_iff transport state
  | metricsChanged transport metrics =>
    exact iff_of_true (h.metricsChanged transport metrics) trivial

/-- In a run of calls and changes of transports from the construction of the manager on, with no
explicit handoff, the transport of the pinned type only becomes available where it is, or becomes
at once, the active one exactly when, after an evaluation at any point, the transport of the pinned
type, if there is a connected one, is the active one. -/
theorem pin_honoured_iff (objects : ℕ → Transport) {events : List TransportEvent}
    (hevents : ∀ e ∈ events, e.isInitiateHandoff = false) :
    Machine.Guarded step AvailableInUse { objects } events ↔
      ∀ pre, pre <+: events →
        (Machine.exec step { objects } (pre ++ [.evaluateAndHandoff])).1.HonoursPin := by
  simp only [Machine.exec_concat, honoursPin_evaluateAndHandoff_iff]
  refine Machine.guarded_iff_forall_reached_of_guarded (I := HonoursPin)
    (Q := fun _ e => e.isInitiateHandoff = false) ?_ ?_ ?_ ?_ (Machine.guarded_of_forall hevents _)
  · exact fun s e h he havailable => (h.step_iff he).mpr havailable
  · exact fun s h => h
  · exact fun s e h he hpinned => (h.step_iff he).mp hpinned
  · rintro - id hid
    cases hid

theorem pin_honoured_sample :
    let events : List TransportEvent := [.registerTransport (some 0), .stateChanged 0 .connected,
      .setPreferredTransportMode .usb]
    (Machine.exec step { objects := fun _ => { type := .usb } }
      (events ++ [.evaluateAndHandoff])).1.HonoursPin := by
  intro events
  have hguarded : Machine.Guarded step AvailableInUse { objects := fun _ => { type := .usb } }
      events :=
    ⟨fun h => absurd rfl h, fun h => absurd rfl h, trivial, trivial⟩
  exact (pin_honoured_iff _ (by decide)).mp hguarded events List.prefix_rfl

/-- Wi-Fi is pinned and then connects, but USB stays in use. -/
theorem pin_not_honoured :
    let objects : ℕ → Transport := fun id =>
      if id = 0 then { type := .usb, state := .connected } else { type := .wifiLan }
    let s := (Machine.exec step { objects }
      [.registerTransport (some 0), .registerTransport (some 1),
        .setPreferredTransportMode .wifiLan, .stateChanged 1 .connected, .evaluateAndHandoff]).1
    ¬ s.HonoursPin ∧ s.manager.activeTransport = some 0 := by
  refine ⟨fun h => ?_, by decide⟩
  exact absurd (h (by decide) 1 (by decide) (by decide)) (by decide)

end TransportSystem

end VeyraCam
