import Mathlib.Algebra.BigOperators.Ring.Finset
import Mathlib.Algebra.BigOperators.Ring.List
import VeyraCam.Telemetry.Collector
import VeyraCam.Telemetry.Stats

/-! # Telemetry in the desktop app

The collector prints its statistics under names of its own, and the decoder
takes a default for every name that it does not find. The loss, the battery,
the temperature and all stages of the latency are lost on the way.
-/

namespace VeyraCam

open BinaryFloat JsonText VeyraModels

/-! ## Printing and reading -/

/-- A `float` as the decoder reads it from the text. -/
def asPrinted (x : ℚ≥0) : ℚ := nearestDouble (tenths x / 10)

theorem spells_fixed (x : ℚ≥0) : Spells (fixed x) (.decimal (tenths x / 10)) := by
  have htext (n : ℕ) : (toString n).toList = Nat.toDigits 10 n := Nat.toList_repr
  have hlength : (Nat.toDigits 10 (tenths x % 10)).length = 1 := by
    rw [Nat.toDigits_of_lt_base (Nat.mod_lt _ (by decide)), List.length_singleton]
  have hvalue : Nat.ofDigitChars 10 (Nat.toDigits 10 (tenths x % 10)) (tenths x / 10) =
      tenths x := by
    rw [Nat.ofDigitChars_eq_ofDigitChars_zero, Nat.ofDigitChars_ten_toDigits, hlength]
    exact Nat.div_add_mod (tenths x) 10
  have hspells := spells_decimal (tenths x / 10) (Nat.toDigits_ne_nil (b := 10))
    (isDigit_of_mem_toDigits (n := tenths x % 10))
  rw [hvalue, hlength, pow_one] at hspells
  rw [fixed, htext, htext]
  exact hspells

theorem lexes_line {key k : Text} (hkey : Lexes key [.scalar (.string k), .colon]) {text : Text}
    {x : Scalar} (hx : Spells text x) :
    Lexes (key ++ text ++ ",\n".toList) [.scalar (.string k), .colon, .scalar x, .comma] := by
  have hend : Lexes ",\n".toList [.comma] := rfl
  rw [List.append_assoc]
  exact hkey.append (Lexes.word hx rfl hend)

theorem lexes_last_line {key k : Text} (hkey : Lexes key [.scalar (.string k), .colon])
    {text : Text} {x : Scalar} (hx : Spells text x) :
    Lexes (key ++ text ++ "\n".toList) [.scalar (.string k), .colon, .scalar x] := by
  have hend : Lexes "\n".toList [] := rfl
  rw [List.append_assoc]
  exact hkey.append (Lexes.word hx rfl hend)

/-! ## What is printed as zero -/

theorem nearestDouble_eq_zero_iff {x : ℚ≥0} : nearestDouble x = 0 ↔ x = 0 := by
  rw [nearestDouble, if_neg (not_lt.mpr x.coe_nonneg), NNRat.toNNRat_coe]
  rcases eq_zero_or_pos x with rfl | hx
  · simp [nearest_zero]
  · have hpos : 0 < nearest 53 x := nearest_pos (by decide) hx
    exact iff_of_false (by exact_mod_cast hpos.ne') hx.ne'

theorem asPrinted_eq_zero_iff {x : ℚ≥0} : asPrinted x = 0 ↔ x ≤ 1 / 20 := by
  have hcast : (tenths x / 10 : ℚ) = ((tenths x / 10 : ℚ≥0) : ℚ) := by push_cast; rfl
  rw [asPrinted, hcast, nearestDouble_eq_zero_iff, div_eq_zero_iff,
    or_iff_left (by norm_num), Nat.cast_eq_zero, tenths_eq_zero_iff]

/-- The tie between the two numbers of 24 digits next to `1 / 20`. -/
theorem toFloat_le_iff {x : ℚ≥0} :
    toFloat x ≤ 1 / 20 ↔ x ≤ ((13421772 : ℕ) + 1 / 2) * 2 ^ (-28 : ℤ) :=
  nearest_le_iff (by decide) (by decide) (by decide) (by qify; norm_num) (by qify; norm_num)

/-- Before it is rounded to a `float`, an average of at most 120 samples has gone through at most
123 roundings. -/
theorem exists_within_averageMs (stage : StageTiming → UInt64) {samples : List StageTiming}
    (hlength : samples.length ≤ 120) :
    ∃ average, averageMs stage samples = toFloat average ∧ Within (growth 53 ^ 123)
      ((samples.map fun t => (stage t).toNat).sum / 1000 / samples.length) average := by
  have hone : 1 ≤ growth 53 := one_le_growth 53
  have hterm (t : StageTiming) : Within (growth 53 * growth 53) ((stage t).toNat / 1000)
      (toMs (stage t)) :=
    ((within_nearest (by decide) _).div 1000).nearest (by decide)
  have hsum := within_foldl (p := 53) (by decide) hterm samples le_rfl
    ((Within.refl 0).mono (one_le_mul hone hone))
  have hexact : (0 : ℚ≥0) + (samples.map fun t => ((stage t).toNat : ℚ≥0) / 1000).sum =
      ((samples.map fun t => (stage t).toNat).sum : ℕ) / 1000 := by
    simp only [zero_add, div_eq_mul_inv, List.sum_map_mul_right, Nat.cast_list_sum, List.map_map,
      Function.comp_def]
  have hgrowth : growth 53 * growth 53 * growth 53 ^ samples.length * growth 53 ≤
      growth 53 ^ 123 := by
    rw [← pow_two, ← pow_add, ← pow_succ]
    exact pow_le_pow_right₀ hone (by omega)
  rw [hexact] at hsum
  exact ⟨_, rfl, ((hsum.div samples.length).nearest (by decide)).mono hgrowth⟩

/-- The roundings do not matter: the averages next to `1 / 20` from below are too far from it. -/
theorem averageMs_le_iff (stage : StageTiming → UInt64) {samples : List StageTiming}
    (hne : samples ≠ []) (hlength : samples.length ≤ 120) :
    averageMs stage samples ≤ 1 / 20 ↔
      (samples.map fun t => (stage t).toNat).sum < 50 * samples.length := by
  obtain ⟨average, heq, hlow, hhigh⟩ := exists_within_averageMs stage hlength
  have hn : (0 : ℚ≥0) < samples.length := by exact_mod_cast List.length_pos_iff.mpr hne
  rw [heq, toFloat_le_iff]
  generalize (samples.map fun t => (stage t).toNat).sum = total at *
  constructor
  · intro hle
    by_contra hcon
    have hge : (50 * samples.length : ℚ≥0) ≤ total := by exact_mod_cast not_lt.mp hcon
    have htwentieth : 1 / 20 ≤ (total : ℚ≥0) / 1000 / samples.length := by
      rw [div_div, le_div_iff₀ (by positivity)]
      refine le_trans (le_of_eq ?_) hge
      ring
    have hnear : growth 53 ^ 123 * (((13421772 : ℕ) + 1 / 2) * 2 ^ (-28 : ℤ)) < 1 / 20 := by
      rw [growth]
      qify
      norm_num
    exact absurd (htwentieth.trans (hlow.trans (mul_le_mul_right hle _))) (not_le.mpr hnear)
  · intro hlt
    have hle : (120000 * total : ℚ≥0) ≤ 5999000 * samples.length := by
      exact_mod_cast (by omega : 120000 * total ≤ 5999000 * samples.length)
    have hfraction : (total : ℚ≥0) / 1000 / samples.length ≤ 5999 / 120000 := by
      rw [div_div, div_le_div_iff₀ (by positivity) (by norm_num), mul_comm]
      refine hle.trans (le_of_eq ?_)
      ring
    have hnear : growth 53 ^ 123 * (5999 / 120000) ≤
        ((13421772 : ℕ) + 1 / 2) * 2 ^ (-28 : ℤ) := by
      rw [growth]
      qify
      norm_num
    exact hhigh.trans ((mul_le_mul_right hfraction _).trans hnear)

namespace TelemetryCollector

variable (c : TelemetryCollector) (activeTransport activeProfile : UInt8)

def printedNames : List Text :=
  ["fps".toList, "bitrate_bps".toList, "latency_ms".toList, "packet_loss_pct".toList,
    "battery_pct".toList, "temperature_c".toList, "breakdown".toList]

def printed : Members :=
  let stats := c.getCurrentStatsPayload activeTransport activeProfile
  let bd := c.computeLatencyBreakdown
  let float (x : ℚ≥0) : Value := .scalar (.decimal (tenths x / 10))
  let int (n : ℤ) : Value := .scalar (.integer n)
  [("fps".toList, float stats.fps),
    ("bitrate_bps".toList, int stats.bitrateBps.toNat),
    ("latency_ms".toList, float stats.latencyMs),
    ("packet_loss_pct".toList, float stats.packetLossPercent),
    ("battery_pct".toList, int stats.batteryPercent.toNat),
    ("temperature_c".toList, int stats.temperatureCelsius.toInt),
    ("breakdown".toList, .object
      [("capture_to_encode_ms".toList, float bd.captureToEncodeMs),
        ("network_transit_ms".toList, float bd.networkTransitMs),
        ("jitter_delay_ms".toList, float bd.jitterBufferDelayMs),
        ("decode_ms".toList, float bd.decodeDurationMs),
        ("present_ms".toList, float bd.presentationDelayMs)])]

theorem decode_toJsonString :
    decode (c.toJsonString activeTransport activeProfile) =
      some (.object (c.printed activeTransport activeProfile)) := by
  have hopen : Lexes "\x7b\n".toList [.openBrace] := rfl
  have hbreakdown : Lexes "  \"breakdown\": \x7b\n".toList
    [.scalar (.string "breakdown".toList), .colon, .openBrace] := rfl
  have hclose : Lexes "  \x7d\n".toList [.closeBrace] := rfl
  have hend : Lexes "\x7d".toList [.closeBrace] := rfl
  have hlexes : Lexes (c.toJsonString activeTransport activeProfile) _ :=
    Lexes.flatten <|
      .cons hopen <|
      .cons (lexes_line (k := "fps".toList) (by rfl) (spells_fixed _)) <|
      .cons (lexes_line (k := "bitrate_bps".toList) (by rfl) (spells_toString _)) <|
      .cons (lexes_line (k := "latency_ms".toList) (by rfl) (spells_fixed _)) <|
      .cons (lexes_line (k := "packet_loss_pct".toList) (by rfl) (spells_fixed _)) <|
      .cons (lexes_line (k := "battery_pct".toList) (by rfl) (spells_toString _)) <|
      .cons (lexes_line (k := "temperature_c".toList) (by rfl) (spells_toString _)) <|
      .cons hbreakdown <|
      .cons (lexes_line (k := "capture_to_encode_ms".toList) (by rfl) (spells_fixed _)) <|
      .cons (lexes_line (k := "network_transit_ms".toList) (by rfl) (spells_fixed _)) <|
      .cons (lexes_line (k := "jitter_delay_ms".toList) (by rfl) (spells_fixed _)) <|
      .cons (lexes_line (k := "decode_ms".toList) (by rfl) (spells_fixed _)) <|
      .cons (lexes_last_line (k := "present_ms".toList) (by rfl) (spells_fixed _)) <|
      .cons hclose <| .cons hend .nil
  rw [decode, hlexes.tokens?_eq]
  rfl

theorem lookup_printed_eq_none (key : Text) (h : key ∉ printedNames) :
    lookup (c.printed activeTransport activeProfile) key = none := by
  have hnames : (c.printed activeTransport activeProfile).map Prod.fst = printedNames := rfl
  exact lookup_eq_none (hnames ▸ h)

/-- What the decoder makes of the text: all but three members have their defaults. -/
theorem ofText_toJsonString :
    TelemetryStats.ofText (c.toJsonString activeTransport activeProfile) =
      some
        { fps := asPrinted (c.getCurrentStatsPayload activeTransport activeProfile).fps
          bitrateBps := (c.getCurrentStatsPayload activeTransport activeProfile).bitrateBps.toNat
          latencyMs :=
            asPrinted (c.getCurrentStatsPayload activeTransport activeProfile).latencyMs } := by
  have hfps : double? (c.printed activeTransport activeProfile) "fps".toList =
    some (asPrinted (c.getCurrentStatsPayload activeTransport activeProfile).fps) := rfl
  have hlatency : double? (c.printed activeTransport activeProfile) "latency_ms".toList =
    some (asPrinted (c.getCurrentStatsPayload activeTransport activeProfile).latencyMs) := rfl
  have hbitrate : int? (c.printed activeTransport activeProfile) "bitrate_bps".toList 0 =
      some ((c.getCurrentStatsPayload activeTransport activeProfile).bitrateBps.toNat : ℤ) :=
    int?_of_integer rfl (by
      have hlt := (c.getCurrentStatsPayload activeTransport activeProfile).bitrateBps.toNat_lt
      omega)
  have hmissing := lookup_printed_eq_none c activeTransport activeProfile
  rw [TelemetryStats.ofText, decode_toJsonString]
  simp only [TelemetryStats.fromJson, hfps, hlatency, hbitrate,
    double?_of_missing (hmissing "packet_loss_percent".toList (by decide)),
    int?_of_missing (hmissing "battery_percent".toList (by decide)),
    int?_of_missing (hmissing "temperature_celsius".toList (by decide)),
    int?_of_missing (hmissing "active_transport".toList (by decide)),
    int?_of_missing (hmissing "active_profile".toList (by decide)),
    hmissing "latency_breakdown".toList (by decide)]
  rfl

theorem getTelemetry_toJsonString :
    some (getTelemetry (some (c.toJsonString activeTransport activeProfile))) =
      TelemetryStats.ofText (c.toJsonString activeTransport activeProfile) := by
  have hne : ¬(c.toJsonString activeTransport activeProfile = [] ∨
      c.toJsonString activeTransport activeProfile = "\x7b\x7d".toList) := by
    rintro (h | h) <;> cases h
  rw [getTelemetry, if_neg hne, ofText_toJsonString, Option.getD_some]

/-! ## What survives -/

/-- The decoded statistics are those of the collector, with one decimal place where they
are printed so. -/
structure Agrees (stats : TelemetryStats) : Prop where
  bitrate : stats.bitrateBps =
    (c.getCurrentStatsPayload activeTransport activeProfile).bitrateBps.toNat
  battery : stats.batteryPercent =
    (c.getCurrentStatsPayload activeTransport activeProfile).batteryPercent.toNat
  temperature : stats.temperatureCelsius =
    (c.getCurrentStatsPayload activeTransport activeProfile).temperatureCelsius.toInt
  fps : stats.fps = asPrinted (c.getCurrentStatsPayload activeTransport activeProfile).fps
  latency : stats.latencyMs =
    asPrinted (c.getCurrentStatsPayload activeTransport activeProfile).latencyMs
  packetLoss : stats.packetLossPercent =
    asPrinted (c.getCurrentStatsPayload activeTransport activeProfile).packetLossPercent
  captureToEncode : stats.latencyBreakdown.captureToEncodeMs =
    asPrinted c.computeLatencyBreakdown.captureToEncodeMs
  networkTransit : stats.latencyBreakdown.networkTransitMs =
    asPrinted c.computeLatencyBreakdown.networkTransitMs
  jitterBufferDelay : stats.latencyBreakdown.jitterBufferDelayMs =
    asPrinted c.computeLatencyBreakdown.jitterBufferDelayMs
  decodeDuration : stats.latencyBreakdown.decodeDurationMs =
    asPrinted c.computeLatencyBreakdown.decodeDurationMs
  presentationDelay : stats.latencyBreakdown.presentationDelayMs =
    asPrinted c.computeLatencyBreakdown.presentationDelayMs

def Survives : Prop :=
  ∃ stats, TelemetryStats.ofText (c.toJsonString activeTransport activeProfile) = some stats ∧
    c.Agrees activeTransport activeProfile stats

/-- Less than 50 µs on the average of the frames that count. -/
def Short (stage : StageTiming → UInt64) : Prop :=
  c.samples ≠ [] → (c.samples.map fun t => (stage t).toNat).sum < 50 * c.samples.length

/-- As `float`s, the lost packets are less than about 0.05 % of those expected, if any: the
bound is `17179869 / 2 ^ 35`. -/
def FewLost : Prop :=
  0 < c.totalPacketsCount →
    34359738368 * toFloat c.lostPacketsCount.toNat ≤
      17179869 * toFloat c.totalPacketsCount.toNat

/-- The state is what the decoder assumes where it finds nothing, or too close to it to be
printed otherwise. -/
structure Unremarkable : Prop where
  battery : c.batteryPct = 100
  temperature : c.temperatureC = 35
  packetLoss : c.FewLost
  captureToEncode : c.Short StageTiming.captureToEncode
  networkTransit : c.Short StageTiming.networkTransit
  jitterBufferDelay : c.Short StageTiming.jitterBufferDelay
  decodeDuration : c.Short StageTiming.decodeDuration
  presentationDelay : c.Short StageTiming.presentationDelay

variable {c activeTransport activeProfile}

theorem packetLossPercent_le_iff : c.packetLossPercent ≤ 1 / 20 ↔ c.FewLost := by
  by_cases htotal : 0 < c.totalPacketsCount
  · have hpos : 0 < toFloat c.totalPacketsCount.toNat :=
      nearest_pos (by decide) (by exact_mod_cast UInt64.lt_iff_toNat_lt.mp htotal)
    -- The quotient is a number of 24 digits too, so that it stays clear of the tie.
    have hquotient (x : ℚ≥0) :
        toFloat x ≤ ((13421772 : ℕ) + 1 / 2) * 2 ^ (-28 : ℤ) / 100 ↔
          x ≤ ((8589934 : ℕ) + 1 / 2) * 2 ^ (-34 : ℤ) :=
      nearest_le_iff (by decide) (by decide) (by decide) (by qify; norm_num) (by qify; norm_num)
    have htie : (((8589934 : ℕ) + 1 / 2) * 2 ^ (-34 : ℤ) : ℚ≥0) = 17179869 / 34359738368 := by
      qify
      norm_num
    rw [packetLossPercent, if_pos htotal, toFloat_le_iff, ← le_div_iff₀ (by norm_num), hquotient,
      htie, div_le_iff₀ hpos, div_mul_eq_mul_div, le_div_iff₀ (by positivity), mul_comm]
    exact (imp_iff_right htotal).symm
  · rw [packetLossPercent, if_neg htotal]
    exact iff_of_true zero_le fun h => absurd h htotal

theorem zero_eq_asPrinted_stage_iff (stage : StageTiming → UInt64) {ms : ℚ≥0}
    (hms : ms = if c.samples = [] then 0 else averageMs stage c.samples) :
    0 = asPrinted ms ↔ c.Short stage := by
  have hlength : c.samples.length ≤ 120 :=
    (List.length_filter_le _ _).trans c.length_timingHistory
  rw [eq_comm, asPrinted_eq_zero_iff, hms]
  by_cases hne : c.samples = []
  · rw [if_pos hne]
    exact iff_of_true zero_le fun h => absurd hne h
  · rw [if_neg hne, averageMs_le_iff stage hne hlength]
    exact (imp_iff_right hne).symm

theorem computeLatencyBreakdown_eq (c : TelemetryCollector) :
    c.computeLatencyBreakdown =
      let average (stage : StageTiming → UInt64) : ℚ≥0 :=
        if c.samples = [] then 0 else averageMs stage c.samples
      { captureToEncodeMs := average StageTiming.captureToEncode
        networkTransitMs := average StageTiming.networkTransit
        jitterBufferDelayMs := average StageTiming.jitterBufferDelay
        decodeDurationMs := average StageTiming.decodeDuration
        presentationDelayMs := average StageTiming.presentationDelay
        endToEndLatencyMs := average StageTiming.endToEndLatency } := by
  unfold computeLatencyBreakdown
  split_ifs <;> rfl

/-- What is lost is replaced by a default, which is right where the printed value happens to
be the default. -/
theorem survives_iff : c.Survives activeTransport activeProfile ↔ c.Unremarkable := by
  have hbattery : (100 : ℤ) = c.batteryPct.toNat ↔ c.batteryPct = 100 := by
    rw [← UInt8.toNat_inj]
    exact eq_comm.trans Nat.cast_inj
  have htemperature : (35 : ℤ) = c.temperatureC.toInt ↔ c.temperatureC = 35 := by
    rw [← Int8.toInt_inj]
    exact eq_comm
  have hloss := eq_comm.trans ((asPrinted_eq_zero_iff (x := c.packetLossPercent)).trans
    packetLossPercent_le_iff)
  have hbreakdown := c.computeLatencyBreakdown_eq
  have hcapture := zero_eq_asPrinted_stage_iff StageTiming.captureToEncode
    (congrArg LatencyBreakdown.captureToEncodeMs hbreakdown)
  have hnetwork := zero_eq_asPrinted_stage_iff StageTiming.networkTransit
    (congrArg LatencyBreakdown.networkTransitMs hbreakdown)
  have hjitter := zero_eq_asPrinted_stage_iff StageTiming.jitterBufferDelay
    (congrArg LatencyBreakdown.jitterBufferDelayMs hbreakdown)
  have hdecode := zero_eq_asPrinted_stage_iff StageTiming.decodeDuration
    (congrArg LatencyBreakdown.decodeDurationMs hbreakdown)
  have hpresent := zero_eq_asPrinted_stage_iff StageTiming.presentationDelay
    (congrArg LatencyBreakdown.presentationDelayMs hbreakdown)
  constructor
  · rintro ⟨stats, hstats, h⟩
    rw [ofText_toJsonString] at hstats
    cases hstats
    exact
      { battery := hbattery.mp h.battery
        temperature := htemperature.mp h.temperature
        packetLoss := hloss.mp h.packetLoss
        captureToEncode := hcapture.mp h.captureToEncode
        networkTransit := hnetwork.mp h.networkTransit
        jitterBufferDelay := hjitter.mp h.jitterBufferDelay
        decodeDuration := hdecode.mp h.decodeDuration
        presentationDelay := hpresent.mp h.presentationDelay }
  · intro h
    refine ⟨_, ofText_toJsonString .., ?_⟩
    exact
      { bitrate := rfl
        battery := hbattery.mpr h.battery
        temperature := htemperature.mpr h.temperature
        fps := rfl
        latency := rfl
        packetLoss := hloss.mpr h.packetLoss
        captureToEncode := hcapture.mpr h.captureToEncode
        networkTransit := hnetwork.mpr h.networkTransit
        jitterBufferDelay := hjitter.mpr h.jitterBufferDelay
        decodeDuration := hdecode.mpr h.decodeDuration
        presentationDelay := hpresent.mpr h.presentationDelay }

/-- A phone at 38 degrees with half its battery left. -/
theorem not_survives :
    ¬(({} : TelemetryCollector).setDeviceThermal 38 50).Survives 0 0 := by
  rintro ⟨stats, hstats, h⟩
  rw [ofText_toJsonString] at hstats
  cases hstats
  exact absurd h.battery (by decide)

end TelemetryCollector

end VeyraCam
