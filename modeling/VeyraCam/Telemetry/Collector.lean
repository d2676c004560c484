import VeyraCam.Library.BinaryFloat
import VeyraCam.Protocol.Bytes

/-! # The telemetry collector

`TelemetryCollector` keeps the clock readings of the last frames, the counts of
received bytes and packets and what the phone last said about itself, and
prints the averages as JSON. `float` has 24 binary digits and `double` 53.
-/

namespace VeyraCam

open BinaryFloat

def toFloat (x : ℚ≥0) : ℚ≥0 := nearest 24 x

def toDouble (x : ℚ≥0) : ℚ≥0 := nearest 53 x

structure StageTiming where
  captureUs : UInt64 := 0
  encodeUs : UInt64 := 0
  netSendUs : UInt64 := 0
  netRecvUs : UInt64 := 0
  jitterReadyUs : UInt64 := 0
  decodeUs : UInt64 := 0
  presentUs : UInt64 := 0
  deriving DecidableEq

structure LatencyBreakdown where
  captureToEncodeMs : ℚ≥0 := 0
  encodeDurationMs : ℚ≥0 := 0
  networkTransitMs : ℚ≥0 := 0
  jitterBufferDelayMs : ℚ≥0 := 0
  decodeDurationMs : ℚ≥0 := 0
  presentationDelayMs : ℚ≥0 := 0
  endToEndLatencyMs : ℚ≥0 := 0
  deriving DecidableEq

structure TelemetryStatsPayload where
  fps : ℚ≥0 := 0
  bitrateBps : UInt32 := 0
  latencyMs : ℚ≥0 := 0
  packetLossPercent : ℚ≥0 := 0
  batteryPercent : UInt8 := 0
  temperatureCelsius : Int8 := 0
  currentTransport : UInt8 := 0
  activeProfile : UInt8 := 0
  deriving DecidableEq

/-- `TelemetryCollector`, with at most 120 frames in its history. -/
structure TelemetryCollector where
  timingHistory : List StageTiming := []
  length_timingHistory : timingHistory.length ≤ 120 := by decide
  bytesHistory : List (UInt64 × UInt64) := []
  totalFramesCounted : UInt64 := 0
  lostPacketsCount : UInt64 := 0
  totalPacketsCount : UInt64 := 0
  temperatureC : Int8 := 35
  batteryPct : UInt8 := 100
  deriving DecidableEq

namespace StageTiming

/-- The time from one stage to the next, 0 when the readings are out of order. -/
def stageUs (start stop : UInt64) : UInt64 := if start ≤ stop then stop - start else 0

def captureToEncode (t : StageTiming) : UInt64 := stageUs t.captureUs t.encodeUs

def networkTransit (t : StageTiming) : UInt64 := stageUs t.netSendUs t.netRecvUs

def jitterBufferDelay (t : StageTiming) : UInt64 := stageUs t.netRecvUs t.jitterReadyUs

def decodeDuration (t : StageTiming) : UInt64 := stageUs t.jitterReadyUs t.decodeUs

def presentationDelay (t : StageTiming) : UInt64 := stageUs t.decodeUs t.presentUs

def endToEndLatency (t : StageTiming) : UInt64 := stageUs t.captureUs t.presentUs

def isValid (t : StageTiming) : Bool := t.captureUs < t.presentUs && 0 < t.captureUs

end StageTiming

def toMs (us : UInt64) : ℚ≥0 := toDouble (toDouble us.toNat / 1000)

/-- The average of a stage. Sum and quotient are `double`, the result is `float`; the count
of at most 120 samples is exact. -/
def averageMs (stage : StageTiming → UInt64) (samples : List StageTiming) : ℚ≥0 :=
  let sum := samples.foldl (fun sum t => toDouble (sum + toMs (stage t))) 0
  toFloat (toDouble (sum / samples.length))

/-- A `float` with one decimal place, as the stream prints it. -/
def fixed (x : ℚ≥0) : Text :=
  (toString (tenths x / 10)).toList ++ '.' :: (toString (tenths x % 10)).toList

namespace TelemetryCollector

def recordFrameTiming (c : TelemetryCollector) (timing : StageTiming) : TelemetryCollector :=
  let history := c.timingHistory ++ [timing]
  { c with
    timingHistory := if 120 < history.length then history.tail else history
    length_timingHistory := by
      have hle := c.length_timingHistory
      have hlength : history.length = c.timingHistory.length + 1 := List.length_append
      split_ifs with h
      · rw [List.length_tail]
        omega
      · omega
    totalFramesCounted := c.totalFramesCounted + 1 }

def recordBytesReceived (c : TelemetryCollector) (bytes nowUs : UInt64) : TelemetryCollector :=
  { c with
    bytesHistory := (c.bytesHistory ++ [(nowUs, bytes)]).dropWhile
      fun entry => decide (1000000 < nowUs - entry.1) }

def recordPacketLoss (c : TelemetryCollector) (lostCount totalExpected : UInt32) :
    TelemetryCollector :=
  { c with
    lostPacketsCount := c.lostPacketsCount + lostCount.toUInt64
    totalPacketsCount := c.totalPacketsCount + totalExpected.toUInt64 }

def setDeviceThermal (c : TelemetryCollector) (celsius : Int8) (batteryPercent : UInt8) :
    TelemetryCollector :=
  { c with temperatureC := celsius, batteryPct := batteryPercent }

def reset (c : TelemetryCollector) : TelemetryCollector :=
  { c with
    timingHistory := []
    length_timingHistory := Nat.zero_le 120
    bytesHistory := []
    lostPacketsCount := 0
    totalPacketsCount := 0 }

def samples (c : TelemetryCollector) : List StageTiming :=
  c.timingHistory.filter StageTiming.isValid

def computeLatencyBreakdown (c : TelemetryCollector) : LatencyBreakdown :=
  if c.samples = [] then {}
  else
    { captureToEncodeMs := averageMs StageTiming.captureToEncode c.samples
      networkTransitMs := averageMs StageTiming.networkTransit c.samples
      jitterBufferDelayMs := averageMs StageTiming.jitterBufferDelay c.samples
      decodeDurationMs := averageMs StageTiming.decodeDuration c.samples
      presentationDelayMs := averageMs StageTiming.presentationDelay c.samples
      endToEndLatencyMs := averageMs StageTiming.endToEndLatency c.samples }

def bytesSum (c : TelemetryCollector) : UInt64 :=
  c.bytesHistory.foldl (fun sum entry => sum + entry.2) 0

def packetLossPercent (c : TelemetryCollector) : ℚ≥0 :=
  if 0 < c.totalPacketsCount then
    let lost := toFloat c.lostPacketsCount.toNat
    let total := toFloat c.totalPacketsCount.toNat
    toFloat (toFloat (lost / total) * 100)
  else 0

def getCurrentStatsPayload (c : TelemetryCollector) (activeTransport activeProfile : UInt8) :
    TelemetryStatsPayload where
  fps := toFloat (min c.timingHistory.length 30 : ℕ)
  bitrateBps := (c.bytesSum * 8).toUInt32
  latencyMs := c.computeLatencyBreakdown.endToEndLatencyMs
  packetLossPercent := c.packetLossPercent
  batteryPercent := c.batteryPct
  temperatureCelsius := c.temperatureC
  currentTransport := activeTransport
  activeProfile := activeProfile

/-- `TelemetryCollector::ToJsonString`, line by line. -/
def toJsonString (c : TelemetryCollector) (activeTransport activeProfile : UInt8) : Text :=
  let stats := c.getCurrentStatsPayload activeTransport activeProfile
  let bd := c.computeLatencyBreakdown
  let int (n : ℤ) : Text := (toString n).toList
  List.flatten [
    "\x7b\n".toList,
    "  \"fps\": ".toList ++ fixed stats.fps ++ ",\n".toList,
    "  \"bitrate_bps\": ".toList ++ int stats.bitrateBps.toNat ++ ",\n".toList,
    "  \"latency_ms\": ".toList ++ fixed stats.latencyMs ++ ",\n".toList,
    "  \"packet_loss_pct\": ".toList ++ fixed stats.packetLossPercent ++ ",\n".toList,
    "  \"battery_pct\": ".toList ++ int stats.batteryPercent.toNat ++ ",\n".toList,
    "  \"temperature_c\": ".toList ++ int stats.temperatureCelsius.toInt ++ ",\n".toList,
    "  \"breakdown\": \x7b\n".toList,
    "    \"capture_to_encode_ms\": ".toList ++ fixed bd.captureToEncodeMs ++ ",\n".toList,
    "    \"network_transit_ms\": ".toList ++ fixed bd.networkTransitMs ++ ",\n".toList,
    "    \"jitter_delay_ms\": ".toList ++ fixed bd.jitterBufferDelayMs ++ ",\n".toList,
    "    \"decode_ms\": ".toList ++ fixed bd.decodeDurationMs ++ ",\n".toList,
    "    \"present_ms\": ".toList ++ fixed bd.presentationDelayMs ++ "\n".toList,
    "  \x7d\n".toList,
    "\x7d".toList]

end TelemetryCollector

end VeyraCam
