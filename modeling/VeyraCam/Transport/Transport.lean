import Mathlib.Data.NNRat.Floor
import Mathlib.Order.Basic

/-! # Transports

What a transport tells of itself: its type, its state and its metrics. A transport
is an object that is shared, so that two of them differ though they tell the same.
-/

namespace VeyraCam

inductive TransportType where
  | auto
  | usb
  | wifiLan
  | wifiDirect
  | bluetooth
  deriving DecidableEq, Repr

/-- The value of the enumerator, by which `std::map` orders the types. -/
def TransportType.value : TransportType → ℕ
  | .auto => 0
  | .usb => 1
  | .wifiLan => 2
  | .wifiDirect => 3
  | .bluetooth => 4

theorem TransportType.value_injective : Function.Injective value := by
  intro t t' h
  cases t <;> cases t' <;> first | rfl | cases h

namespace TransportType

instance : LE TransportType := ⟨fun t t' => t.value ≤ t'.value⟩

instance : LT TransportType := ⟨fun t t' => t.value < t'.value⟩

instance : DecidableLT TransportType := fun t t' => inferInstanceAs (Decidable (t.value < t'.value))

instance : Std.IsLinearOrder TransportType where
  le_refl _ := Nat.le_refl _
  le_trans _ _ _ := Nat.le_trans
  le_antisymm _ _ h h' := value_injective (Nat.le_antisymm h h')
  le_total _ _ := Nat.le_total _ _

instance : Std.LawfulOrderLT TransportType := ⟨fun _ _ => Nat.lt_iff_le_and_not_ge⟩

end TransportType

inductive TransportState where
  | disconnected
  | connecting
  | connected
  | degraded
  | failed
  deriving DecidableEq, Repr

/-- `TransportMetrics`, those that decide on a handoff. -/
structure TransportMetrics where
  rttMs : ℚ≥0 := 0
  packetLossPercent : ℚ≥0 := 0
  deriving DecidableEq

structure Transport where
  type : TransportType
  state : TransportState := .disconnected
  metrics : TransportMetrics := {}
  deriving DecidableEq

end VeyraCam
