import Mathlib.Order.Basic
import VeyraCam.Phone.ThermalController

/-! # Heat and the bitrate of the encoder

A change of the tier sets the encoder to a bitrate of the tier's own, whatever the
user has configured. Between tiers that bitrate falls with the heat. It rises where
the user has asked for less than the tier recommends.
-/

namespace VeyraCam

def ThermalTier.targetBitrateBps (tier : ThermalTier) : ℤ :=
  (tier.recommendation 0).targetBitrateBps

theorem ThermalTier.recommendation_targetBitrateBps (tier : ThermalTier) (tempCelsius : ℚ) :
    (tier.recommendation tempCelsius).targetBitrateBps = tier.targetBitrateBps := by
  cases tier <;> rfl

theorem ThermalTier.targetBitrateBps_anti {a b : ThermalTier} (h : a ≤ b) :
    b.targetBitrateBps ≤ a.targetBitrateBps := by
  have hseverity : a.severity ≤ b.severity := h
  cases a <;> cases b <;> first
  | exact absurd hseverity (by decide)
  | exact Int.le_of_sub_nonneg (by decide)

/-- What `VeyraStreamingService` keeps of bitrates while it streams: its own field, the encoder's
and the controller of the heat. -/
structure BitrateControl where
  currentBitrateBps : ℤ
  encoderBitrateBps : ℤ
  thermalController : ThermalController
  deriving DecidableEq

inductive BitrateCommand where
  | startStream (video : Option (Option ℤ))
  | setBitrate (bitrate : Option ℤ)
  deriving DecidableEq

inductive BitrateEvent where
  | command (command : BitrateCommand)
  | report (report : ThermalReport)
  deriving DecidableEq

/-- A call of `onThermalAdjustment`, with what it finds and leaves. -/
structure ThermalAdjustment where
  oldTier : ThermalTier
  newTier : ThermalTier
  oldBitrateBps : ℤ
  newBitrateBps : ℤ
  configuredBps : ℤ
  deriving DecidableEq

namespace BitrateControl

def startStreaming (bitrateBps : ℤ) : BitrateControl := ⟨bitrateBps, bitrateBps, {}⟩

def updateBitrate (s : BitrateControl) (newBitrateBps : ℤ) : BitrateControl :=
  { s with encoderBitrateBps := newBitrateBps }

def handleControlCommand (s : BitrateControl) : BitrateCommand → BitrateControl
  | .startStream none => s
  | .startStream (some bitrate) =>
    let br := bitrate.getD s.currentBitrateBps
    if br ≠ s.currentBitrateBps then { s.updateBitrate br with currentBitrateBps := br } else s
  | .setBitrate bitrate => s.updateBitrate (bitrate.getD s.currentBitrateBps)

def onThermalAdjustment (s : BitrateControl) (rec : ThermalRecommendation) : BitrateControl :=
  s.updateBitrate rec.targetBitrateBps

def onReport (s : BitrateControl) (report : ThermalReport) : BitrateControl :=
  let next := s.thermalController.onReport report
  next.2.foldl onThermalAdjustment { s with thermalController := next.1 }

def step (s : BitrateControl) : BitrateEvent → BitrateControl
  | .command command => s.handleControlCommand command
  | .report report => s.onReport report

theorem onReport_encoderBitrateBps (s : BitrateControl) (report : ThermalReport) :
    (s.onReport report).encoderBitrateBps =
      if report.tier ≠ s.thermalController.currentTier then report.tier.targetBitrateBps
      else s.encoderBitrateBps := by
  obtain ⟨tempCelsius, hrecommendations⟩ := s.thermalController.onReport_recommendations report
  rw [onReport, hrecommendations]
  split_ifs
  · exact report.tier.recommendation_targetBitrateBps tempCelsius
  · rfl

theorem onReport_currentTier (s : BitrateControl) (report : ThermalReport) :
    (s.onReport report).thermalController.currentTier = report.tier := by
  obtain ⟨tempCelsius, hrecommendations⟩ := s.thermalController.onReport_recommendations report
  rw [onReport, hrecommendations]
  split_ifs <;> exact s.thermalController.onReport_currentTier report

end BitrateControl

/-- The bitrates with what was asked for: the bitrate last configured, and the one that the
encoder was given since the tier last changed, if it was. -/
structure BitrateWatch extends BitrateControl where
  configuredBps : ℤ
  givenBps : Option ℤ
  deriving DecidableEq

namespace BitrateWatch

open BitrateControl

def start (bitrateBps : ℤ) : BitrateWatch where
  toBitrateControl := startStreaming bitrateBps
  configuredBps := bitrateBps
  givenBps := some bitrateBps

def configured? : BitrateCommand → Option ℤ
  | .startStream video => video.join
  | .setBitrate bitrate => bitrate

def given? (s : BitrateWatch) : BitrateCommand → Option ℤ
  | .startStream video => video.join.filter (· ≠ s.currentBitrateBps)
  | .setBitrate bitrate => some (bitrate.getD s.currentBitrateBps)

def step (s : BitrateWatch) (e : BitrateEvent) : BitrateWatch × List ThermalAdjustment :=
  let next := s.toBitrateControl.step e
  match e with
  | .command command =>
    ({ toBitrateControl := next
       configuredBps := (configured? command).getD s.configuredBps
       givenBps := (s.given? command).or s.givenBps }, [])
  | .report report =>
    if report.tier ≠ s.thermalController.currentTier then
      ({ toBitrateControl := next, configuredBps := s.configuredBps, givenBps := none },
        [⟨s.thermalController.currentTier, report.tier, s.encoderBitrateBps,
          next.encoderBitrateBps, s.configuredBps⟩])
    else ({ s with toBitrateControl := next }, [])

/-- The encoder has the bitrate that it was given last, and without any the one of its tier. -/
def Tracks (s : BitrateWatch) : Prop :=
  s.encoderBitrateBps =
    s.givenBps.getD s.thermalController.currentTier.targetBitrateBps

/-- A change of the tier sets the bitrate no higher than configured, and a hotter tier no higher
than it was. -/
def Cools (o : ThermalAdjustment) : Prop :=
  o.newBitrateBps ≤ o.configuredBps ∧ (o.oldTier < o.newTier → o.newBitrateBps ≤ o.oldBitrateBps)

/-- The tier changes to one that recommends no more than is configured, nor, where it is hotter,
than the encoder was given since the last change. -/
def AsksEnough (s : BitrateWatch) : BitrateEvent → Prop
  | .command _ => True
  | .report report => report.tier ≠ s.thermalController.currentTier →
    report.tier.targetBitrateBps ≤ s.configuredBps ∧
      (s.thermalController.currentTier < report.tier →
        ∀ bitrate ∈ s.givenBps, report.tier.targetBitrateBps ≤ bitrate)

theorem Tracks.command {s : BitrateWatch} (h : s.Tracks) (command : BitrateCommand) :
    (s.step (.command command)).1.Tracks := by
  unfold Tracks at h ⊢
  cases command with
  | startStream video =>
    rcases video with - | - | br
    · exact h
    · simpa [step, given?, BitrateControl.step, handleControlCommand] using h
    · by_cases hbr : br = s.currentBitrateBps
      · simpa [step, given?, BitrateControl.step, handleControlCommand, hbr, Option.filter] using h
      · simp [step, given?, BitrateControl.step, handleControlCommand, hbr, Option.filter,
          updateBitrate]
  | setBitrate bitrate => rfl

theorem Tracks.report {s : BitrateWatch} (h : s.Tracks) (report : ThermalReport) :
    (s.step (.report report)).1.Tracks := by
  unfold Tracks at h ⊢
  rw [step]
  split_ifs with htier
  · change (s.onReport report).encoderBitrateBps = _
    rw [onReport_encoderBitrateBps, if_pos htier, Option.getD_none]
    exact congrArg _ (s.onReport_currentTier report).symm
  · change (s.onReport report).encoderBitrateBps =
      s.givenBps.getD (s.onReport report).thermalController.currentTier.targetBitrateBps
    rw [onReport_encoderBitrateBps, if_neg htier, onReport_currentTier, not_not.mp htier, h]

/-- Without a bitrate of its own, the encoder only gets a lower one from a hotter tier. -/
theorem Tracks.le_encoderBitrateBps_iff {s : BitrateWatch} (h : s.Tracks) {tier : ThermalTier}
    (htier : s.thermalController.currentTier < tier) :
    tier.targetBitrateBps ≤ s.encoderBitrateBps ↔
      ∀ bitrate ∈ s.givenBps, tier.targetBitrateBps ≤ bitrate := by
  rw [h]
  cases s.givenBps with
  | none => simpa using ThermalTier.targetBitrateBps_anti htier.le
  | some bitrate => simp

theorem Tracks.cools_iff {s : BitrateWatch} (h : s.Tracks) (e : BitrateEvent) :
    (∀ o ∈ (s.step e).2, Cools o) ↔ s.AsksEnough e := by
  cases e with
  | command command => exact iff_of_true (by simp [step]) trivial
  | report report =>
    rw [step, AsksEnough]
    split_ifs with htier
    · have hbitrate : (s.toBitrateControl.step (.report report)).encoderBitrateBps =
          report.tier.targetBitrateBps := by
        rw [BitrateControl.step, onReport_encoderBitrateBps, if_pos htier]
      rw [List.forall_mem_singleton, Cools, hbitrate, imp_iff_right htier]
      exact and_congr_right fun _ => forall_congr' fun hhotter => h.le_encoderBitrateBps_iff hhotter
    · exact iff_of_true (by simp) fun hchange => absurd hchange htier

/-- In a run from any bitrate selected, every change of the tier sets the bitrate no higher than
configured, and no higher than before when it gets hotter, exactly when every tier that is
changed to recommends no more than was asked for. -/
theorem cools_iff_asksEnough (bitrateBps : ℤ) (events : List BitrateEvent) :
    (∀ o ∈ (Machine.exec step (start bitrateBps) events).2, Cools o) ↔
      Machine.Guarded step AsksEnough (start bitrateBps) events := by
  refine Machine.forall_outputs_iff_guarded (I := Tracks) (Q := fun _ => True) ?_ ?_ ?_ ?_
  · rintro s (command | report) h -
    · exact h.command command
    · exact h.report report
  · exact fun s e h _ => h.cools_iff e
  · exact rfl
  · exact fun _ _ => trivial

/-- At 41 °C a stream of 1 Mbps is raised to 1.8 Mbps, and at 30 °C to 2.5 Mbps. -/
theorem not_cools_low_bitrate :
    (Machine.exec step (start 1000000)
        [.report (.batteryChanged (some 410)), .report (.batteryChanged (some 300))]).2 =
      [⟨.normal, .warm, 1000000, 1800000, 1000000⟩, ⟨.warm, .normal, 1800000, 2500000, 1000000⟩] ∧
    ¬ Cools ⟨.normal, .warm, 1000000, 1800000, 1000000⟩ := by
  refine ⟨by decide +kernel, fun h => ?_⟩
  exact absurd h.1 (by decide)

end BitrateWatch

end VeyraCam
