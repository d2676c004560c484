import Mathlib.Order.Defs.LinearOrder
import VeyraCam.Library.BinaryFloat
import VeyraCam.Library.Machine

/-! # The thermal controller

The temperature of the battery and the thermal status of the system each call
for a tier, and both are applied to one variable. The tier in force is the one of
the last report from either source: it is as severe as both ask for exactly when
no report is cooler than the latest of the other source.
-/

namespace VeyraCam

open BinaryFloat

inductive ThermalTier where
  | normal
  | warm
  | hot
  | critical
  deriving DecidableEq, Repr

namespace ThermalTier

def severity : ThermalTier → ℕ
  | normal => 0
  | warm => 1
  | hot => 2
  | critical => 3

theorem severity_injective : Function.Injective severity := by
  intro a b h
  cases a <;> cases b <;> first | rfl | cases h

instance : LinearOrder ThermalTier := LinearOrder.lift' severity severity_injective

def ofTemperature (tempCelsius : ℚ) : ThermalTier :=
  if 48 ≤ tempCelsius then critical
  else if 44 ≤ tempCelsius then hot
  else if 40 ≤ tempCelsius then warm
  else normal

/-- The tier that a status of `PowerManager` calls for: none, light, moderate, and from severe
up to shutdown. -/
def ofStatus (status : ℤ) : ThermalTier :=
  if status = 0 then normal
  else if status = 1 then warm
  else if status = 2 then hot
  else if status = 3 ∨ status = 4 ∨ status = 5 ∨ status = 6 then critical
  else normal

end ThermalTier

structure ThermalRecommendation where
  tier : ThermalTier
  targetWidth : ℕ
  targetHeight : ℕ
  targetFps : ℕ
  targetBitrateBps : ℤ
  temperatureCelsius : ℚ
  deriving DecidableEq

def ThermalTier.recommendation (tier : ThermalTier) (tempCelsius : ℚ) : ThermalRecommendation :=
  match tier with
  | .normal => ⟨tier, 1280, 720, 30, 2500000, tempCelsius⟩
  | .warm => ⟨tier, 1280, 720, 30, 1800000, tempCelsius⟩
  | .hot => ⟨tier, 854, 480, 24, 1000000, tempCelsius⟩
  | .critical => ⟨tier, 640, 360, 15, 350000, tempCelsius⟩

/-- `tempTenths / 10.0f`, in numbers of 24 binary digits. -/
def celsiusOfTenths (tempTenths : ℤ) : ℚ :=
  let magnitude := nearest 24 (nearest 24 tempTenths.natAbs / (10 : ℕ))
  if tempTenths < 0 then -(magnitude : ℚ) else magnitude

structure ThermalController where
  currentTier : ThermalTier := .normal
  lastTempCelsius : ℚ := 25
  deriving DecidableEq

/-- A broadcast of `ACTION_BATTERY_CHANGED`, with its `EXTRA_TEMPERATURE` if there is one, or a
call of the listener for the thermal status. -/
inductive ThermalReport where
  | batteryChanged (extraTemperature : Option ℤ)
  | thermalStatusChanged (status : ℤ)
  deriving DecidableEq

inductive ThermalSource where
  | battery
  | powerManager
  deriving DecidableEq

namespace ThermalReport

def source : ThermalReport → ThermalSource
  | batteryChanged _ => .battery
  | thermalStatusChanged _ => .powerManager

def tier : ThermalReport → ThermalTier
  | batteryChanged extraTemperature => .ofTemperature (celsiusOfTenths (extraTemperature.getD 0))
  | thermalStatusChanged status => .ofStatus status

end ThermalReport

namespace ThermalController

def applyTier (c : ThermalController) (tier : ThermalTier) (tempCelsius : ℚ) :
    ThermalController × List ThermalRecommendation :=
  if tier ≠ c.currentTier then
    ({ c with currentTier := tier }, [tier.recommendation tempCelsius])
  else (c, [])

def evaluateThermalState (c : ThermalController) (tempCelsius : ℚ) :
    ThermalController × List ThermalRecommendation :=
  c.applyTier (.ofTemperature tempCelsius) tempCelsius

/-- `batteryReceiver` and `thermalListener`, with the calls of `onRecommendationChanged`. -/
def onReport (c : ThermalController) :
    ThermalReport → ThermalController × List ThermalRecommendation
  | .batteryChanged extraTemperature =>
    let tempCelsius := celsiusOfTenths (extraTemperature.getD 0)
    { c with lastTempCelsius := tempCelsius }.evaluateThermalState tempCelsius
  | .thermalStatusChanged status => c.applyTier (.ofStatus status) c.lastTempCelsius

theorem applyTier_currentTier (c : ThermalController) (tier : ThermalTier) (tempCelsius : ℚ) :
    (c.applyTier tier tempCelsius).1.currentTier = tier := by
  unfold applyTier
  split_ifs with h
  · rfl
  · exact (not_not.mp h).symm

/-- The last report has its way. -/
theorem onReport_currentTier (c : ThermalController) (report : ThermalReport) :
    (c.onReport report).1.currentTier = report.tier := by
  cases report with
  | batteryChanged extraTemperature => exact applyTier_currentTier _ _ _
  | thermalStatusChanged status => exact applyTier_currentTier _ _ _

/-- A recommendation is made on every change of the tier, and on no other report. -/
theorem onReport_recommendations (c : ThermalController) (report : ThermalReport) :
    ∃ tempCelsius, (c.onReport report).2 =
      if report.tier ≠ c.currentTier then [report.tier.recommendation tempCelsius] else [] := by
  cases report with
  | batteryChanged extraTemperature =>
    refine ⟨celsiusOfTenths (extraTemperature.getD 0), ?_⟩
    change (applyTier _ (ThermalReport.batteryChanged extraTemperature).tier _).2 = _
    unfold applyTier
    split_ifs <;> rfl
  | thermalStatusChanged status =>
    refine ⟨c.lastTempCelsius, ?_⟩
    change (applyTier _ (ThermalReport.thermalStatusChanged status).tier _).2 = _
    unfold applyTier
    split_ifs <;> rfl

/-! ## The latest report of each source -/

/-- The tier that the latest report of a source calls for. -/
def latestTier (source : ThermalSource) (reports : List ThermalReport) : Option ThermalTier :=
  ((reports.filter fun report => report.source = source).getLast?).map ThermalReport.tier

theorem latestTier_concat (source : ThermalSource) (reports : List ThermalReport)
    (report : ThermalReport) :
    latestTier source (reports ++ [report]) =
      if report.source = source then some report.tier else latestTier source reports := by
  unfold latestTier
  rw [List.filter_append]
  split_ifs with h
  · rw [List.filter_cons_of_pos (by simpa using h), List.filter_nil, List.getLast?_concat]
    rfl
  · rw [List.filter_cons_of_neg (by simpa using h), List.filter_nil, List.append_nil]

/-- The tier in force is as severe as the latest report of either source calls for. -/
def HotterWins (reports : List ThermalReport) : Prop :=
  ∀ source, ∀ tier ∈ latestTier source reports,
    tier ≤ (Machine.exec onReport {} reports).1.currentTier

/-- A report calls for no less than the latest one of the other source. -/
def NoCooler (reports : List ThermalReport) (report : ThermalReport) : Prop :=
  ∀ source, source ≠ report.source → ∀ tier ∈ latestTier source reports, tier ≤ report.tier

theorem hotterWins_nil : HotterWins [] := by
  rintro source tier htier
  cases htier

theorem hotterWins_concat_iff (reports : List ThermalReport) (report : ThermalReport) :
    HotterWins (reports ++ [report]) ↔ NoCooler reports report := by
  unfold HotterWins NoCooler
  rw [Machine.exec_concat]
  simp only [onReport_currentTier, latestTier_concat]
  refine forall_congr' fun source => ?_
  by_cases h : report.source = source
  · simp [h]
  · simp [h, Ne.symm h]

/-- The hotter source wins all through a run exactly when no report calls for less than the
latest one of the other source does. -/
theorem hotterWins_iff_noCooler (reports : List ThermalReport) :
    (∀ pre, pre <+: reports → HotterWins pre) ↔
      ∀ pre report, pre ++ [report] <+: reports → NoCooler pre report := by
  constructor
  · rintro h pre report hpre
    exact (hotterWins_concat_iff pre report).mp (h _ hpre)
  · rintro h pre hpre
    rcases pre.eq_nil_or_concat' with rfl | ⟨pre, report, rfl⟩
    · exact hotterWins_nil
    · exact (hotterWins_concat_iff pre report).mpr (h pre report hpre)

/-- 30 °C cancels a severe status, and no status cancels 50 °C. -/
theorem not_hotterWins_cooler :
    ¬ HotterWins [.thermalStatusChanged 3, .batteryChanged (some 300)] ∧
      ¬ HotterWins [.batteryChanged (some 500), .thermalStatusChanged 0] := by
  constructor
  · exact fun h => absurd (h .powerManager .critical (by decide)) (by decide +kernel)
  · exact fun h => absurd (h .battery .critical (by decide +kernel)) (by decide +kernel)

end ThermalController

end VeyraCam
