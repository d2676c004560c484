import VeyraCam.Library.Machine
import VeyraCam.Packet.Packetizer
import VeyraCam.Packet.Reassembler

/-! # Injected packets

Under an armed key, a packet that does not authenticate is dropped before
`PushPacket` writes anything. A run with such packets inserted anywhere is
therefore the run without them.
-/

namespace VeyraCam

variable {ω : Type*} {lib : Mbedtls}

/-- A byte string that anyone can put on the wire: it is no media packet, or not one sealed
under the key. -/
inductive Injectable (lib : Mbedtls) (crypto : SessionCrypto) (packetData : Bytes) : Prop
  | malformed (h : deserializeHeader packetData = none)
  | short {header : PacketHeader} (h : deserializeHeader packetData = some header)
      (hl : packetData.length < headerSize + header.payloadLength.toNat)
  | stream {header : PacketHeader} (h : deserializeHeader packetData = some header)
      (h₀ : header.streamId ≠ 0) (h₁ : header.streamId ≠ 1)
  | plaintext {header : PacketHeader} (h : deserializeHeader packetData = some header)
      (he : header.isEncrypted = false)
  | forged {header : PacketHeader} (h : deserializeHeader packetData = some header)
      (hd : crypto.decrypt lib ((packetData.drop headerSize).take header.payloadLength.toNat)
        header.sequence (packetData.take headerSize) = none)

theorem Injectable.openPacket {crypto : SessionCrypto} {packetData : Bytes}
    (hi : Injectable lib crypto packetData) :
    FrameReassembler.openPacket lib (some crypto) packetData = none := by
  unfold FrameReassembler.openPacket
  cases hi with
  | malformed h => simp only [h]
  | short h hl => simp only [h, if_pos hl]
  | stream h h₀ h₁ => simp only [h, if_pos (And.intro h₀ h₁), ite_self]
  | plaintext h he => simp [h, he]
  | forged h hd => simp [h, hd]

/-- A packet on its way to the reassembler, with who sent it. -/
structure Delivery (ω : Type*) where
  injected : Bool
  origin : ω
  packetData : Bytes

/-- What one `PushPacket` call shows: its return value and its callbacks. -/
structure Outcome (ω : Type*) where
  injected : Bool
  accepted : Bool
  calls : List (Callback ω)
  deriving DecidableEq

def deliver (lib : Mbedtls) (r : FrameReassembler ω) (d : Delivery ω) :
    FrameReassembler ω × List (Outcome ω) :=
  let result := r.pushPacket lib d.origin d.packetData
  (result.state, [⟨d.injected, result.accepted, result.calls⟩])

theorem deliver_crypto (r : FrameReassembler ω) (d : Delivery ω) :
    (deliver lib r d).1.crypto = r.crypto := FrameReassembler.pushPacket_crypto ..

theorem deliver_injectable {r : FrameReassembler ω} {crypto : SessionCrypto}
    (hr : r.crypto = some crypto) {d : Delivery ω} (hd : Injectable lib crypto d.packetData) :
    deliver lib r d = (r, [⟨d.injected, false, []⟩]) := by
  simp only [deliver, FrameReassembler.pushPacket, hr, hd.openPacket]

/-- Injected packets are refused without a callback, and everything else is as in the run
without them. -/
theorem injection_no_effect {crypto : SessionCrypto} (r : FrameReassembler ω)
    (hr : r.crypto = some crypto) (ds : List (Delivery ω))
    (hd : ∀ d ∈ ds, d.injected = true → Injectable lib crypto d.packetData) :
    let run := Machine.exec (deliver lib) r ds
    let run' := Machine.exec (deliver lib) r (ds.filter (!·.injected))
    (∀ o ∈ run.2, o.injected = true → o.accepted = false) ∧
      run.2.filter (!·.injected) = run'.2 ∧
      run.2.flatMap (·.calls) = run'.2.flatMap (·.calls) ∧ run.1 = run'.1 := by
  induction ds generalizing r with
  | nil => simp
  | cons d ds ih =>
    have ih := ih (deliver lib r d).1 ((deliver_crypto r d).trans hr)
      fun e he => hd e (List.mem_cons_of_mem _ he)
    cases hi : d.injected with
    | true =>
      rw [deliver_injectable hr (hd d List.mem_cons_self hi)] at ih
      simpa [hi, deliver_injectable hr (hd d List.mem_cons_self hi)] using ih
    | false =>
      obtain ⟨hrefused, hrest, hcalls, hstate⟩ := ih
      have ho : (deliver lib r d).2 =
          [⟨false, (r.pushPacket lib d.origin d.packetData).accepted,
            (r.pushPacket lib d.origin d.packetData).calls⟩] := by rw [deliver, hi]
      simp only [Machine.exec_cons, List.filter_cons, hi, Bool.not_false, if_true, ho,
        List.cons_append, List.nil_append, List.mem_cons, forall_eq_or_imp, List.flatMap_cons]
      exact ⟨⟨by simp, hrefused⟩, by rw [hrest], by rw [hcalls], hstate⟩

set_option maxRecDepth 100000 in
/-- A frame gets through between a truncated packet and a plaintext one. -/
theorem injection_no_effect_around_frame :
    let r : FrameReassembler ℕ := { crypto := some .sample }
    let ds : List (Delivery ℕ) :=
      [⟨true, 0, [86]⟩, ⟨false, 1, samplePacket (some .sample)⟩, ⟨true, 2, samplePacket none⟩]
    let run := Machine.exec (deliver .sample) r ds
    let run' := Machine.exec (deliver .sample) r (ds.filter (!·.injected))
    ((∀ o ∈ run.2, o.injected = true → o.accepted = false) ∧
      run.2.filter (!·.injected) = run'.2 ∧
      run.2.flatMap (·.calls) = run'.2.flatMap (·.calls) ∧ run.1 = run'.1) ∧
      run.2.map (·.accepted) = [false, true, false] := by
  refine ⟨injection_no_effect _ rfl _ ?_, by decide⟩
  simp only [List.forall_mem_cons, List.not_mem_nil, false_imp_iff, imp_true_iff, and_true]
  refine ⟨fun _ => .malformed rfl, ?_, fun _ => ?_⟩
  · exact fun h => absurd h Bool.false_ne_true
  · exact @Injectable.plaintext .sample .sample (samplePacket none)
      ⟨protocolMagic, protocolVersion, 1, 0, 7, 1, 0, 0, 1, 5, 3⟩ rfl rfl

end VeyraCam
