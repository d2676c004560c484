import VeyraCam.Library.BinaryFloat
import VeyraCam.Library.JsonText
import VeyraCam.Protocol.Bytes

/-! # The statistics of the desktop app

`TelemetryStats.fromJson` and `LatencyBreakdown.fromJson` of the package
`veyra_models` read a decoded JSON object. A member that is not there gets its
default, and a member of the wrong kind is an exception. The zeros of both
signs are one `double` here.
-/

namespace VeyraCam.VeyraModels

open BinaryFloat JsonText

abbrev Members := List (Text × Value)

def nearestDouble (x : ℚ) : ℚ :=
  if x < 0 then -(nearest 53 (-x).toNNRat : ℚ) else nearest 53 x.toNNRat

/-- A `num` of Dart: an `int` of 64 bits or a `double`. -/
inductive Num where
  | int (n : ℤ)
  | double (x : ℚ)
  deriving DecidableEq

namespace Num

def ofInteger (n : ℤ) : Num :=
  if -2 ^ 63 ≤ n ∧ n < 2 ^ 63 then int n else double (nearestDouble n)

def toDouble : Num → ℚ
  | int n => nearestDouble n
  | double x => x

/-- Without the fraction, and within 64 bits. -/
def toInt : Num → ℤ
  | int n => n
  | double x => max (-2 ^ 63) (min (2 ^ 63 - 1) (if x < 0 then ⌈x⌉ else ⌊x⌋))

end Num

/-- `json[key] as num?`, or nothing at all when it throws. -/
def num? (json : Members) (key : Text) : Option (Option Num) :=
  match lookup json key with
  | none | some (.scalar .null) => some none
  | some (.scalar (.integer n)) => some (some (.ofInteger n))
  | some (.scalar (.decimal x)) => some (some (.double (nearestDouble x)))
  | some _ => none

/-- `(json[key] as num?)?.toDouble() ?? 0.0`. -/
def double? (json : Members) (key : Text) : Option ℚ :=
  (num? json key).map fun n => (n.map Num.toDouble).getD 0

/-- `(json[key] as num?)?.toInt() ?? default`. -/
def int? (json : Members) (key : Text) (default : ℤ) : Option ℤ :=
  (num? json key).map fun n => (n.map Num.toInt).getD default

theorem double?_of_missing {json : Members} {key : Text} (h : lookup json key = none) :
    double? json key = some 0 := by
  rw [double?, num?, h]
  rfl

theorem int?_of_missing {json : Members} {key : Text} (h : lookup json key = none)
    {default : ℤ} : int? json key default = some default := by
  rw [int?, num?, h]
  rfl

theorem int?_of_integer {json : Members} {key : Text} {n : ℤ}
    (h : lookup json key = some (.scalar (.integer n))) (hn : -2 ^ 63 ≤ n ∧ n < 2 ^ 63)
    {default : ℤ} : int? json key default = some n := by
  rw [int?, num?, h]
  change some (Num.toInt (Num.ofInteger n)) = _
  rw [Num.ofInteger, if_pos hn, Num.toInt]

structure LatencyBreakdown where
  captureToEncodeMs : ℚ := 0
  encodeDurationMs : ℚ := 0
  networkTransitMs : ℚ := 0
  jitterBufferDelayMs : ℚ := 0
  decodeDurationMs : ℚ := 0
  presentationDelayMs : ℚ := 0
  endToEndLatencyMs : ℚ := 0
  deriving DecidableEq

structure TelemetryStats where
  fps : ℚ := 0
  bitrateBps : ℤ := 0
  latencyMs : ℚ := 0
  packetLossPercent : ℚ := 0
  batteryPercent : ℤ := 100
  temperatureCelsius : ℤ := 35
  activeTransport : ℤ := 0
  activeProfile : ℤ := 0
  latencyBreakdown : LatencyBreakdown := {}
  deriving DecidableEq

def LatencyBreakdown.fromJson (json : Members) : Option LatencyBreakdown := do
  some
    { captureToEncodeMs := ← double? json "capture_to_encode_ms".toList
      encodeDurationMs := ← double? json "encode_duration_ms".toList
      networkTransitMs := ← double? json "network_transit_ms".toList
      jitterBufferDelayMs := ← double? json "jitter_buffer_delay_ms".toList
      decodeDurationMs := ← double? json "decode_duration_ms".toList
      presentationDelayMs := ← double? json "presentation_delay_ms".toList
      endToEndLatencyMs := ← double? json "end_to_end_latency_ms".toList }

namespace TelemetryStats

def fromJson (json : Members) : Option TelemetryStats := do
  some
    { fps := ← double? json "fps".toList
      bitrateBps := ← int? json "bitrate_bps".toList 0
      latencyMs := ← double? json "latency_ms".toList
      packetLossPercent := ← double? json "packet_loss_percent".toList
      batteryPercent := ← int? json "battery_percent".toList 100
      temperatureCelsius := ← int? json "temperature_celsius".toList 35
      activeTransport := ← int? json "active_transport".toList 0
      activeProfile := ← int? json "active_profile".toList 0
      latencyBreakdown := ← match lookup json "latency_breakdown".toList with
        | some (.object members) => LatencyBreakdown.fromJson members
        | _ => some {} }

/-- `TelemetryStats.fromJson(jsonDecode(str) as Map<String, dynamic>)`. -/
def ofText (str : Text) : Option TelemetryStats :=
  match decode str with
  | some (.object members) => fromJson members
  | _ => none

end TelemetryStats

/-- `NativeDesktopSession.getTelemetry`, with the text behind the pointer if there is one. -/
def getTelemetry (ptr : Option Text) : TelemetryStats :=
  match ptr with
  | none => {}
  | some str =>
    if str = [] ∨ str = "\x7b\x7d".toList then {} else (TelemetryStats.ofText str).getD {}

end VeyraCam.VeyraModels
