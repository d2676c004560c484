import Mathlib.Algebra.Order.BigOperators.Group.List
import VeyraCam.Library.Machine
import VeyraCam.Library.SlidingWindow
import VeyraCam.Telemetry.Collector

/-! # The bitrate of the last second

`RecordBytesReceived` drops the records that are more than a second older than
the new one. `GetCurrentStatsPayload` adds up what is left and drops nothing, so
that it answers for the second before the last record, not for the one before
the query.
-/

namespace VeyraCam

def SecondPasses (sinceUs untilUs : UInt64) : Prop := sinceUs.toNat + 1000000 < untilUs.toNat

instance (sinceUs untilUs : UInt64) : Decidable (SecondPasses sinceUs untilUs) :=
  inferInstanceAs (Decidable (sinceUs.toNat + 1000000 < untilUs.toNat))

/-- The bytes recorded in the last second before a time. -/
def receivedWithin (records : List (UInt64 × UInt64)) (nowUs : UInt64) : ℕ :=
  (records.map fun entry =>
    if entry.1 ≤ nowUs ∧ ¬ SecondPasses entry.1 nowUs then entry.2.toNat else 0).sum

/-- What more than a second has passed since is more than a second older than a record. -/
def CoveredBy (records : List (UInt64 × UInt64)) (nowUs : UInt64) : Prop :=
  ∀ entry ∈ records, entry.2 ≠ 0 → SecondPasses entry.1 nowUs →
    ∃ later ∈ records, SecondPasses entry.1 later.1

instance (records : List (UInt64 × UInt64)) (nowUs : UInt64) :
    Decidable (CoveredBy records nowUs) :=
  have (entry : UInt64 × UInt64) :=
    List.decidableBEx (fun later => SecondPasses entry.1 later.1) records
  List.decidableBAll (fun entry : UInt64 × UInt64 => entry.2 ≠ 0 → SecondPasses entry.1 nowUs →
    ∃ later ∈ records, SecondPasses entry.1 later.1) records

theorem secondPasses_iff {sinceUs untilUs : UInt64} (h : sinceUs ≤ untilUs) :
    SecondPasses sinceUs untilUs ↔ 1000000 < untilUs - sinceUs := by
  have hle := UInt64.le_iff_toNat_le.mp h
  have hsecond : (1000000 : UInt64).toNat = 1000000 := rfl
  rw [SecondPasses, UInt64.lt_iff_toNat_lt, UInt64.toNat_sub_of_le _ _ h, hsecond]
  omega

namespace TelemetryCollector

inductive ReceptionCall where
  | recordBytesReceived (bytes nowUs : UInt64)
  | getCurrentStatsPayload (activeTransport activeProfile : UInt8) (nowUs : UInt64)
  deriving DecidableEq

namespace ReceptionCall

def nowUs : ReceptionCall → UInt64
  | recordBytesReceived _ nowUs | getCurrentStatsPayload _ _ nowUs => nowUs

def record? : ReceptionCall → Option (UInt64 × UInt64)
  | recordBytesReceived bytes nowUs => some (nowUs, bytes)
  | getCurrentStatsPayload _ _ _ => none

end ReceptionCall

def records (calls : List ReceptionCall) : List (UInt64 × UInt64) :=
  calls.filterMap ReceptionCall.record?

/-- A query changes nothing and answers at its time. -/
def receptionStep (c : TelemetryCollector) :
    ReceptionCall → TelemetryCollector × List (UInt64 × TelemetryStatsPayload)
  | .recordBytesReceived bytes nowUs => (c.recordBytesReceived bytes nowUs, [])
  | .getCurrentStatsPayload activeTransport activeProfile nowUs =>
    (c, [(nowUs, c.getCurrentStatsPayload activeTransport activeProfile)])

/-! ## The window -/

/-- `RecordBytesReceived` drops an entry when another one comes. -/
def outOfDate (newest entry : UInt64 × UInt64) : Bool := decide (1000000 < newest.1 - entry.1)

theorem outOfDate_iff {newest entry : UInt64 × UInt64} (h : entry.1 ≤ newest.1) :
    outOfDate newest entry = true ↔ SecondPasses entry.1 newest.1 := by
  rw [outOfDate, decide_eq_true_iff, secondPasses_iff h]

theorem ages_outOfDate : SlidingWindow.Ages outOfDate fun a b => a.1 ≤ b.1 := by
  constructor
  · intro a
    simp [outOfDate]
  · rintro a b c hab hbc hb
    have hb := (outOfDate_iff hbc).mp hb
    refine (outOfDate_iff (UInt64.le_trans hab hbc)).mpr ?_
    have hle := UInt64.le_iff_toNat_le.mp hab
    unfold SecondPasses at hb ⊢
    omega
  · rintro a b c hab hbc ha
    have ha := (outOfDate_iff hab).mp ha
    refine (outOfDate_iff (UInt64.le_trans hab hbc)).mpr ?_
    have hle := UInt64.le_iff_toNat_le.mp hbc
    unfold SecondPasses at ha ⊢
    omega

theorem bytesHistory_exec (c : TelemetryCollector) (calls : List ReceptionCall) :
    (Machine.exec receptionStep c calls).1.bytesHistory =
      (records calls).foldl (SlidingWindow.slide outOfDate) c.bytesHistory := by
  induction calls generalizing c with
  | nil => rfl
  | cons call calls ih =>
    cases call with
    | recordBytesReceived bytes nowUs => exact ih (c.recordBytesReceived bytes nowUs)
    | getCurrentStatsPayload activeTransport activeProfile nowUs => exact ih c

theorem toNat_foldl_filter (p : UInt64 × UInt64 → Bool) (l : List (UInt64 × UInt64))
    (sum : UInt64) :
    ((l.filter p).foldl (fun sum entry => sum + entry.2) sum).toNat =
      (sum.toNat + (l.map fun entry => if p entry = true then entry.2.toNat else 0).sum) %
        2 ^ 64 := by
  induction l generalizing sum with
  | nil => exact (Nat.mod_eq_of_lt sum.toNat_lt).symm
  | cons entry l ih =>
    by_cases hp : p entry = true
    · rw [List.filter_cons_of_pos hp, List.foldl_cons, ih, UInt64.toNat_add, List.map_cons,
        List.sum_cons, if_pos hp]
      omega
    · rw [List.filter_cons_of_neg hp, ih, List.map_cons, List.sum_cons, if_neg hp, zero_add]

theorem bitrateBps_of_last {calls : List ReceptionCall} {pre : List (UInt64 × UInt64)}
    {last : UInt64 × UInt64} (hrecords : records calls = pre ++ [last])
    (hsorted : (records calls).Pairwise fun a b => a.1 ≤ b.1)
    (hlast : ∀ entry ∈ records calls, entry.1 ≤ last.1)
    (hbits : 8 * receivedWithin (records calls) last.1 < 2 ^ 32)
    (activeTransport activeProfile : UInt8) :
    ((Machine.exec receptionStep {} calls).1.getCurrentStatsPayload activeTransport
      activeProfile).bitrateBps.toNat = 8 * receivedWithin (records calls) last.1 := by
  have hhistory : (Machine.exec receptionStep {} calls).1.bytesHistory =
      (records calls).filter fun entry => !outOfDate last entry := by
    rw [bytesHistory_exec, hrecords]
    exact SlidingWindow.foldl_slide ages_outOfDate (hrecords ▸ hsorted)
  have hsum : ((records calls).map fun entry =>
      if (!outOfDate last entry) = true then entry.2.toNat else 0).sum =
        receivedWithin (records calls) last.1 := by
    unfold receivedWithin
    refine congrArg List.sum (List.map_congr_left fun entry hentry => if_congr ?_ rfl rfl)
    rw [Bool.not_eq_true', ← Bool.not_eq_true, outOfDate_iff (hlast entry hentry)]
    exact (and_iff_right (hlast entry hentry)).symm
  have hbytes := toNat_foldl_filter (fun entry => !outOfDate last entry) (records calls) 0
  rw [hsum, ← hhistory] at hbytes
  change (((Machine.exec receptionStep {} calls).1.bytesSum * 8).toUInt32).toNat = _
  rw [UInt64.toNat_toUInt32, UInt64.toNat_mul, bytesSum, hbytes]
  change (0 + receivedWithin (records calls) last.1) % 2 ^ 64 * 8 % 2 ^ 64 % 2 ^ 32 = _
  omega

/-! ## The second before the query -/

theorem sum_map_eq_iff {α : Type*} {f g : α → ℕ} {l : List α} (h : ∀ a ∈ l, f a ≤ g a) :
    (l.map g).sum = (l.map f).sum ↔ ∀ a ∈ l, g a = f a := by
  constructor
  · intro hsum
    by_contra! hne
    obtain ⟨a, ha, hne⟩ := hne
    exact (List.sum_lt_sum f g h ⟨a, ha, (h a ha).lt_of_ne hne.symm⟩).ne' hsum
  · exact fun heq => congrArg List.sum (List.map_congr_left heq)

theorem receivedWithin_eq_iff {records : List (UInt64 × UInt64)} {lastUs nowUs : UInt64}
    (hlast : ∀ entry ∈ records, entry.1 ≤ lastUs) (hnow : lastUs ≤ nowUs) :
    receivedWithin records lastUs = receivedWithin records nowUs ↔
      ∀ entry ∈ records, entry.2 ≠ 0 → SecondPasses entry.1 nowUs →
        SecondPasses entry.1 lastUs := by
  have hlater : ∀ entry ∈ records, entry.1 ≤ nowUs := fun entry hentry =>
    UInt64.le_trans (hlast entry hentry) hnow
  have hpasses (entry : UInt64 × UInt64) (h : SecondPasses entry.1 lastUs) :
      SecondPasses entry.1 nowUs := Nat.lt_of_lt_of_le h (UInt64.le_iff_toNat_le.mp hnow)
  have hzero (bytes : UInt64) : bytes.toNat = 0 ↔ bytes = 0 := UInt64.toNat_inj (b := 0)
  unfold receivedWithin
  rw [sum_map_eq_iff]
  · refine forall₂_congr fun entry hentry => ?_
    simp only [hlast entry hentry, hlater entry hentry, true_and]
    by_cases hpast : SecondPasses entry.1 lastUs
    · simp [hpast, hpasses entry hpast]
    · by_cases hnow : SecondPasses entry.1 nowUs
      · simp [hpast, hnow, hzero]
      · simp [hpast, hnow]
  · rintro entry hentry
    simp only [hlast entry hentry, hlater entry hentry, true_and]
    by_cases hpast : SecondPasses entry.1 lastUs
    · simp [hpasses entry hpast]
    · rw [if_pos hpast]
      split_ifs
      · exact Nat.zero_le _
      · exact le_rfl

theorem pairwise_records {calls : List ReceptionCall}
    (hclock : (calls.map ReceptionCall.nowUs).Pairwise (· ≤ ·)) :
    (records calls).Pairwise fun a b => a.1 ≤ b.1 := by
  refine List.Pairwise.filterMap ReceptionCall.record? ?_ (List.pairwise_map.mp hclock)
  rintro a b hle x hx y hy
  cases a with
  | getCurrentStatsPayload => cases hx
  | recordBytesReceived bytes nowUs =>
    cases b with
    | getCurrentStatsPayload => cases hy
    | recordBytesReceived bytes' nowUs' =>
      obtain rfl := Option.some.inj hx
      obtain rfl := Option.some.inj hy
      exact hle

/-- After a run on a clock that does not go back, with less than 2³² bits in any second, a query
answers for the last second exactly when all that was recorded before it was more than a second
old by the last record already. -/
theorem bitrateBps_eq_iff_coveredBy {calls : List ReceptionCall} {nowUs : UInt64}
    (hclock : (calls.map ReceptionCall.nowUs ++ [nowUs]).Pairwise (· ≤ ·))
    (hbits : ∀ t, 8 * receivedWithin (records calls) t < 2 ^ 32)
    (activeTransport activeProfile : UInt8) :
    ((Machine.exec receptionStep {} calls).1.getCurrentStatsPayload activeTransport
        activeProfile).bitrateBps.toNat = 8 * receivedWithin (records calls) nowUs ↔
      CoveredBy (records calls) nowUs := by
  obtain ⟨hcalls, -, hnow⟩ := List.pairwise_append.mp hclock
  have hsorted := pairwise_records hcalls
  rcases (records calls).eq_nil_or_concat' with hnil | ⟨pre, last, hrecords⟩
  · have hhistory : (Machine.exec receptionStep {} calls).1.bytesHistory = [] := by
      rw [bytesHistory_exec, hnil]
      rfl
    have hzero : ((Machine.exec receptionStep {} calls).1.getCurrentStatsPayload activeTransport
        activeProfile).bitrateBps = 0 := by
      rw [getCurrentStatsPayload, bytesSum, hhistory]
      rfl
    rw [hzero, hnil]
    exact iff_of_true rfl (by simp [CoveredBy])
  · have hlast : ∀ entry ∈ records calls, entry.1 ≤ last.1 := by
      rintro entry hentry
      rw [hrecords] at hentry hsorted
      rcases List.mem_append.mp hentry with hpre | hlast
      · exact (List.pairwise_append.mp hsorted).2.2 entry hpre last (by simp)
      · obtain rfl := List.mem_singleton.mp hlast
        exact UInt64.le_refl entry.1
    have hmem : last ∈ records calls := by simp [hrecords]
    have hlastnow : last.1 ≤ nowUs := by
      obtain ⟨call, hcall, hrecord⟩ := List.mem_filterMap.mp hmem
      cases call with
      | getCurrentStatsPayload => cases hrecord
      | recordBytesReceived bytes callUs =>
        obtain rfl := Option.some.inj hrecord
        exact hnow callUs (List.mem_map.mpr ⟨_, hcall, rfl⟩) nowUs (by simp)
    rw [bitrateBps_of_last hrecords hsorted hlast (hbits last.1), Nat.mul_right_inj (by decide),
      receivedWithin_eq_iff hlast hlastnow]
    refine forall₂_congr fun entry hentry => imp_congr_right fun _ => imp_congr_right fun _ => ?_
    constructor
    · exact fun hpasses => ⟨last, hmem, hpasses⟩
    · rintro ⟨later, hlater, hpasses⟩
      exact Nat.lt_of_lt_of_le hpasses (UInt64.le_iff_toNat_le.mp (hlast later hlater))

theorem bitrateBps_after_a_pause :
    ((Machine.exec receptionStep {} [.recordBytesReceived 5000 0,
      .recordBytesReceived 1000 1500000]).1.getCurrentStatsPayload 0 0).bitrateBps.toNat =
        8 * receivedWithin [(0, 5000), (1500000, 1000)] 2000000 := by
  let calls : List ReceptionCall :=
    [.recordBytesReceived 5000 0, .recordBytesReceived 1000 1500000]
  have hbits : ∀ t, 8 * receivedWithin (records calls) t < 2 ^ 32 := by
    intro t
    change 8 * ((if _ then 5000 else 0) + ((if _ then 1000 else 0) + 0)) < 2 ^ 32
    split_ifs <;> decide
  have hclock : (calls.map ReceptionCall.nowUs ++ [2000000]).Pairwise (· ≤ ·) := by decide
  exact (bitrateBps_eq_iff_coveredBy hclock hbits 0 0).mpr (by decide)

/-- The bitrate of a burst is reported for ever after. -/
theorem bitrateBps_after_a_burst :
    ((Machine.exec receptionStep {} [.recordBytesReceived 1000 0]).1.getCurrentStatsPayload 0
        0).bitrateBps = 8000 ∧
      receivedWithin (records [.recordBytesReceived 1000 0]) 2000000 = 0 := by
  decide

end TelemetryCollector

end VeyraCam
