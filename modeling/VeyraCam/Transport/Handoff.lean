import VeyraCam.Transport.Manager

/-! # Automatic handoff

`EvaluateAndHandoff` walks through the transports in the order of their types and
keeps the first of the best. What it makes active is the best candidate in terms of
what is registered, and evaluating once more makes no difference.
-/

namespace VeyraCam.AutoTransportManager

variable {objects : ℕ → Transport} {m : AutoTransportManager} {type : TransportType} {id s : ℕ}

/-- A registered transport that is connected and scores below the limit. -/
structure Candidate (objects : ℕ → Transport) (m : AutoTransportManager) (type : TransportType)
    (id : ℕ) : Prop where
  registered : m.transports.find? type = some id
  connected : (objects id).state = .connected
  score_lt : calculateRank type (objects id).metrics < 99999

/-- The candidate of the least score, and of the lowest type among those of this score. -/
structure Best (objects : ℕ → Transport) (m : AutoTransportManager) (type : TransportType)
    (id : ℕ) : Prop extends Candidate objects m type id where
  least : ∀ type' id', Candidate objects m type' id' →
    calculateRank type (objects id).metrics < calculateRank type' (objects id').metrics ∨
    calculateRank type (objects id).metrics = calculateRank type' (objects id').metrics ∧
      type ≤ type'

theorem score_eq_some_iff :
    score objects (type, id) = some s ↔
      (objects id).state = .connected ∧ calculateRank type (objects id).metrics = s := by
  simp [score, isConnected]

theorem candidate_iff :
    Candidate objects m type id ↔
      (type, id) ∈ m.transports.entries ∧ ∃ s ∈ score objects (type, id), s < 99999 := by
  rw [← OrderedMap.find?_eq_some_iff]
  constructor
  · rintro ⟨hregistered, hconnected, hlt⟩
    exact ⟨hregistered, _, score_eq_some_iff.mpr ⟨hconnected, rfl⟩, hlt⟩
  · rintro ⟨hregistered, s, hs, hlt⟩
    obtain ⟨hconnected, rfl⟩ := score_eq_some_iff.mp hs
    exact ⟨hregistered, hconnected, hlt⟩

/-- The loop meets the types in increasing order. -/
theorem best_of_isFirstLeast
    (h : IsFirstLeast (score objects) 99999 m.transports.entries (type, id) s) :
    Best objects m type id := by
  obtain ⟨-, hscore⟩ := score_eq_some_iff.mp h.score_eq
  refine ⟨candidate_iff.mpr ⟨h.mem, s, h.score_eq, h.lt_bound⟩, fun type' id' hcandidate => ?_⟩
  obtain ⟨hmem, s', hs', -⟩ := candidate_iff.mp hcandidate
  obtain ⟨-, hscore'⟩ := score_eq_some_iff.mp hs'
  rw [hscore, hscore']
  rcases (h.le _ hmem s' hs').lt_or_eq with hlt | rfl
  · exact .inl hlt
  refine .inr ⟨rfl, ?_⟩
  rcases h.rel_of_score_eq m.transports.sorted hmem hs' with heq | hlt
  · rw [(Prod.mk.inj heq).1]
    exact Std.le_refl _
  · exact Std.le_of_lt hlt

theorem bestCandidate_cases (objects : ℕ → Transport) (m : AutoTransportManager) :
    ((m.bestCandidate objects).1 = none ∧ ∀ type id, ¬ Candidate objects m type id) ∨
    ∃ type id, (m.bestCandidate objects).1 = some (type, id) ∧ Best objects m type id := by
  rw [bestCandidate]
  rcases foldl_keepLeast (score objects) 99999 m.transports.entries with
    ⟨hfold, hall⟩ | ⟨⟨type, id⟩, s, hfold, h⟩ <;> rw [hfold]
  · refine .inl ⟨rfl, fun type id hcandidate => ?_⟩
    obtain ⟨hmem, s, hs, hlt⟩ := candidate_iff.mp hcandidate
    exact absurd hlt (Nat.not_lt.mpr (hall _ hmem s hs))
  · exact .inr ⟨type, id, rfl, best_of_isFirstLeast h⟩

theorem evaluateAndHandoff_cases (objects : ℕ → Transport) (hauto : m.preferredMode = .auto)
    (hidle : m.isHandoffInProgress = false) :
    ((∀ type id, ¬ Candidate objects m type id) ∧ (m.bestCandidate objects).1 = none ∧
      m.evaluateAndHandoff objects = (m, [], false)) ∨
    ∃ type id, Best objects m type id ∧ (m.bestCandidate objects).1 = some (type, id) ∧
      m.evaluateAndHandoff objects =
        if m.activeTransport = some id then (m, [], false)
        else
          ({ m with activeTransport := some id },
            [⟨m.getActiveTransportType objects, (objects id).type⟩], true) := by
  have hchooses : ¬ (m.isHandoffInProgress || m.preferredMode ≠ .auto) = true := by
    simp [hauto, hidle]
  rw [evaluateAndHandoff, if_neg hchooses]
  rcases bestCandidate_cases objects m with ⟨hnone, hall⟩ | ⟨type, id, hsome, hbest⟩
  · refine .inl ⟨hall, hnone, ?_⟩
    rw [hnone]
  · refine .inr ⟨type, id, hbest, hsome, ?_⟩
    rw [hsome]

theorem evaluateAndHandoff_of_active (h : (m.bestCandidate objects).1 = some (type, id))
    (hactive : m.activeTransport = some id) :
    m.evaluateAndHandoff objects = (m, [], false) := by
  rw [evaluateAndHandoff, h]
  dsimp only
  rw [if_pos hactive, ite_self]

/-- In automatic mode an evaluation makes the best candidate active, and leaves the manager as it is
if there is none. It reports a handoff, with one call of the callback from the old type to the new,
exactly when the active transport has changed, and a second one changes nothing. -/
theorem evaluateAndHandoff_picks_best (objects : ℕ → Transport) {m : AutoTransportManager}
    (hauto : m.preferredMode = .auto) (hidle : m.isHandoffInProgress = false) :
    let (m', calls, result) := m.evaluateAndHandoff objects
    ((∃ type id, Best objects m type id ∧ m' = { m with activeTransport := some id }) ∨
      (∀ type id, ¬ Candidate objects m type id) ∧ m' = m) ∧
    (result = true ↔ m'.activeTransport ≠ m.activeTransport) ∧
    calls = (if result then
      [⟨m.getActiveTransportType objects, m'.getActiveTransportType objects⟩] else []) ∧
    m'.evaluateAndHandoff objects = (m', [], false) := by
  rcases evaluateAndHandoff_cases objects hauto hidle with
    ⟨hall, hnone, heval⟩ | ⟨type, id, hbest, hsome, heval⟩
  · rw [heval]
    exact ⟨.inr ⟨hall, rfl⟩, by simp, rfl, heval⟩
  · rw [heval]
    split_ifs with hactive
    · refine ⟨.inl ⟨type, id, hbest, ?_⟩, by simp, rfl, evaluateAndHandoff_of_active hsome hactive⟩
      rw [← hactive]
    · refine ⟨.inl ⟨type, id, hbest, rfl⟩, ?_, rfl, evaluateAndHandoff_of_active hsome rfl⟩
      exact iff_of_true rfl (Ne.symm hactive)

theorem evaluateAndHandoff_picks_best_sample :
    let objects : ℕ → Transport := fun id =>
      if id = 0 then { type := .usb, state := .connected, metrics := { rttMs := 50 } }
      else { type := .wifiLan, state := .connected }
    let m : AutoTransportManager :=
      { transports := OrderedMap.insert (OrderedMap.insert ∅ .usb 0) .wifiLan 1
        activeTransport := some 0 }
    let (m', calls, result) := m.evaluateAndHandoff objects
    ((∃ type id, Best objects m type id ∧ m' = { m with activeTransport := some id }) ∨
      (∀ type id, ¬ Candidate objects m type id) ∧ m' = m) ∧
    (result = true ↔ m'.activeTransport ≠ m.activeTransport) ∧
    calls = (if result then
      [⟨m.getActiveTransportType objects, m'.getActiveTransportType objects⟩] else []) ∧
    m'.evaluateAndHandoff objects = (m', [], false) :=
  evaluateAndHandoff_picks_best _ rfl rfl

/-- Wi-Fi takes over from a slow USB link. -/
example :
    let objects : ℕ → Transport := fun id =>
      if id = 0 then { type := .usb, state := .connected, metrics := { rttMs := 50 } }
      else { type := .wifiLan, state := .connected }
    let m : AutoTransportManager :=
      { transports := OrderedMap.insert (OrderedMap.insert ∅ .usb 0) .wifiLan 1
        activeTransport := some 0 }
    (m.evaluateAndHandoff objects).2 = ([⟨.usb, .wifiLan⟩], true) := by
  decide +kernel

end VeyraCam.AutoTransportManager
