import VeyraCam.Library.Machine
import VeyraCam.Packet.Packetizer
import VeyraCam.Packet.Provenance

/-! # Runs of a receiver

Any sequence of the four operations of a `FrameReassembler`. Neither `SetCrypto`
nor `SetExpectedSessionId` clears the pending frames, and both `SetCrypto` and
`Reset` clear the replay window, so a frame is free of fragments of another key
or session, and a sequence number is accepted once for each key, only in runs
that use these operations with care.
-/

namespace VeyraCam

inductive Operation where
  | pushPacket (packetData : Bytes)
  | setCrypto (crypto : Option SessionCrypto)
  | setExpectedSessionId (sessionId : UInt32)
  | reset

/-- The packet that brought a fragment, the key armed when it came and the number of
`SetCrypto` calls before it. -/
structure Arrival where
  epoch : ℕ
  crypto : Option SessionCrypto
  packetData : Bytes
  deriving DecidableEq

/-- A reassembler with the history its properties speak of: the number of `SetCrypto` calls,
and the receive key and sequence number of each accepted encrypted packet. -/
structure Receiver where
  reassembler : FrameReassembler Arrival := {}
  epoch : ℕ := 0
  accepted : List (FixedBytes 32 × UInt32) := []

/-- A callback, with the key armed and the number of `SetCrypto` calls when it is made. -/
structure Emission where
  epoch : ℕ
  crypto : Option SessionCrypto
  call : Callback Arrival
  deriving DecidableEq

namespace Receiver

variable (lib : Mbedtls)

/-- The receive key and the sequence number a packet is accepted under, if it is encrypted. -/
def acceptedUnder (crypto : Option SessionCrypto) (packetData : Bytes) :
    Option (FixedBytes 32 × UInt32) :=
  crypto.map fun crypto => (crypto.rxKey, (PacketHeader.ofBytes packetData).sequence)

def operate (s : Receiver) : Operation → Receiver × List Emission
  | .pushPacket packetData =>
    let crypto := s.reassembler.crypto
    let result := s.reassembler.pushPacket lib ⟨s.epoch, crypto, packetData⟩ packetData
    let log := if result.accepted then (acceptedUnder crypto packetData).toList else []
    ({ s with reassembler := result.state, accepted := s.accepted ++ log },
      result.calls.map (⟨s.epoch, crypto, ·⟩))
  | .setCrypto crypto =>
    ({ s with reassembler := s.reassembler.setCrypto crypto, epoch := s.epoch + 1 }, [])
  | .setExpectedSessionId sessionId =>
    ({ s with reassembler := s.reassembler.setExpectedSessionId sessionId }, [])
  | .reset => ({ s with reassembler := s.reassembler.reset }, [])

variable {lib}

theorem settled_operate {s : Receiver} (h : s.reassembler.Settled) (op : Operation) :
    (s.operate lib op).1.reassembler.Settled := by
  cases op with
  | pushPacket packetData => exact h.pushPacket _ packetData
  | setCrypto | setExpectedSessionId => exact h.congr rfl
  | reset => exact FrameReassembler.settled_of_empty rfl

theorem settled_after (lib : Mbedtls) (ops : List Operation) :
    (Machine.exec (operate lib) {} ops).1.reassembler.Settled :=
  Machine.invariant (I := fun s : Receiver => s.reassembler.Settled)
    (fun _ op h => settled_operate h op) (FrameReassembler.settled_of_empty rfl) ops

section Isolation

/-- The fragment is the payload of its packet, opened under the given key in the given
epoch, and the packet is of the given session. -/
def Opened (lib : Mbedtls) (epoch : ℕ) (crypto : Option SessionCrypto) (sessionId : UInt32)
    (f : Fragment Arrival) : Prop :=
  f.origin.epoch = epoch ∧ f.origin.crypto = crypto ∧ ∃ header,
    FrameReassembler.openPacket lib crypto f.origin.packetData = some (header, f.payload) ∧
      header.sessionId = sessionId

/-- The frame is assembled from fragments of one session, opened under the key that is
armed when the frame is emitted and since it was armed. -/
def Isolated (lib : Mbedtls) (e : Emission) : Prop :=
  ∃ sessionId, e.call.MadeOf (Opened lib e.epoch e.crypto sessionId)

/-- A change of key or session finds no pending frames of another one. -/
def ClearsPending (s : Receiver) : Operation → Prop
  | .pushPacket _ => True
  | .setCrypto _ => s.reassembler.pendingFrames = ∅
  | .setExpectedSessionId sessionId =>
    s.reassembler.pendingFrames = ∅ ∨ sessionId = s.reassembler.expectedSessionId
  | .reset => True

def Uniform (lib : Mbedtls) (s : Receiver) : Prop :=
  s.reassembler.pendingFrames = ∅ ∨ s.reassembler.sessionLocked = true ∧
    s.reassembler.AllFragments
      (Opened lib s.epoch s.reassembler.crypto s.reassembler.expectedSessionId)

theorem Uniform.allFragments {s : Receiver} (h : s.Uniform lib) {header : PacketHeader}
    (ha : s.reassembler.Admits header) : (s.reassembler.admitted header).AllFragments
      (Opened lib s.epoch s.reassembler.crypto header.sessionId) := by
  rcases h with h | ⟨hl, h⟩
  · exact FrameReassembler.allFragments_of_empty (by simp [h])
  · rw [ha.2 hl]
    exact h.of_pendingFrames (by simp)

theorem Uniform.pushPacket {s : Receiver} (h : s.Uniform lib) (packetData : Bytes) :
    (s.operate lib (.pushPacket packetData)).1.Uniform lib ∧
      ∀ e ∈ (s.operate lib (.pushPacket packetData)).2, Isolated lib e := by
  unfold operate FrameReassembler.pushPacket
  simp only [List.forall_mem_map]
  split
  · exact ⟨h, by simp⟩
  · next header payload ho =>
    rcases s.reassembler.acceptPacket_cases ⟨s.epoch, s.reassembler.crypto, packetData⟩ header
      payload with ⟨-, hs⟩ | ⟨-, -, -, hs⟩ | ⟨ha, -, hs⟩ | ⟨ha, -, hs⟩ <;> simp only [hs]
    · exact ⟨h, by simp⟩
    · exact ⟨h, by simp⟩
    · refine ⟨.inr ⟨by simp, ?_⟩, fun c hc => ⟨0, ?_⟩⟩
      · simpa [FrameReassembler.admitted_expectedSessionId ha] using h.allFragments ha
      · split_ifs at hc
        · obtain rfl := List.mem_singleton.mp hc
          trivial
        · cases hc
    · have hnew : Opened lib s.epoch s.reassembler.crypto header.sessionId
          ⟨payload, ⟨s.epoch, s.reassembler.crypto, packetData⟩⟩ := ⟨rfl, rfl, header, ho, rfl⟩
      refine ⟨.inr ⟨by simp, ?_⟩, fun c hc => ⟨header.sessionId,
        ((h.allFragments ha).storeFragment hnew).2 c hc⟩⟩
      simpa [FrameReassembler.admitted_expectedSessionId ha] using
        ((h.allFragments ha).storeFragment hnew).1

theorem Uniform.operate {s : Receiver} (h : s.Uniform lib) {op : Operation}
    (hop : s.ClearsPending op) :
    (s.operate lib op).1.Uniform lib ∧ ∀ e ∈ (s.operate lib op).2, Isolated lib e := by
  cases op with
  | pushPacket packetData => exact h.pushPacket packetData
  | setCrypto crypto => exact ⟨.inl hop, by simp [Receiver.operate]⟩
  | setExpectedSessionId sessionId =>
    refine ⟨?_, by simp [Receiver.operate]⟩
    rcases hop with he | rfl
    · exact .inl he
    · exact h.imp id fun ⟨_, hf⟩ => ⟨rfl, hf⟩
  | reset => exact ⟨.inl rfl, by simp [Receiver.operate]⟩

/-- While keys and sessions change only between frames, every frame is of one key and one
session. -/
theorem isolated_of_clearsPending {ops : List Operation}
    (h : Machine.Guarded (operate lib) ClearsPending {} ops) :
    ∀ e ∈ (Machine.exec (operate lib) {} ops).2, Isolated lib e :=
  (h.invariant (I := Uniform lib) (fun _ _ hs hop => hs.operate hop) (.inl rfl)).2

set_option maxRecDepth 100000 in
theorem isolated_of_clearsPending_sample :
    let ops := [.setCrypto (some .sample), .setExpectedSessionId 7,
      .pushPacket (samplePacket (some .sample)), .setCrypto none]
    (∀ e ∈ (Machine.exec (operate .sample) {} ops).2, Isolated .sample e) ∧
      (Machine.exec (operate .sample) {} ops).2.length = 1 :=
  ⟨isolated_of_clearsPending ⟨rfl, .inl rfl, trivial, by rfl, trivial⟩, by decide⟩

set_option maxRecDepth 100000 in
/-- A plaintext fragment stored before the key is armed ends up in an encrypted frame. -/
theorem not_isolated_across_setCrypto :
    ¬ ∀ e ∈ (Machine.exec (operate .sample) {} [.pushPacket (sampleFragment none 0),
      .setCrypto (some .sample), .pushPacket (sampleFragment (some .sample) 1)]).2,
      Isolated .sample e := by
  intro h
  have he : (Machine.exec (operate .sample) {} [.pushPacket (sampleFragment none 0),
      .setCrypto (some .sample), .pushPacket (sampleFragment (some .sample) 1)]).2 =
      [⟨1, some .sample, .frameReady ⟨1, 5, true, [0, 1]⟩
        [⟨0, none, sampleFragment none 0⟩,
          ⟨1, some .sample, sampleFragment (some .sample) 1⟩]⟩] := by decide
  rw [he] at h
  obtain ⟨_, parts, hparts, horigins, -⟩ := h _ List.mem_cons_self
  obtain ⟨f, hf, ho⟩ := List.mem_map.mp (horigins ▸ List.mem_cons_self)
  have hepoch : f.origin.epoch = 1 := (hparts f hf).1
  rw [ho] at hepoch
  exact absurd hepoch (by decide)

end Isolation

section Replay

def Unused (s : Receiver) (crypto : Option SessionCrypto) : Prop :=
  ∀ c, crypto = some c → ∀ sequence, (c.rxKey, sequence) ∉ s.accepted

/-- The replay window is cleared only for a key that is not in use. -/
def KeepsWindow (s : Receiver) : Operation → Prop
  | .pushPacket _ => True
  | .setCrypto crypto => s.Unused crypto
  | .setExpectedSessionId _ => True
  | .reset => s.Unused s.reassembler.crypto

/-- Nothing was accepted twice, and the replay filter knows what was accepted under
the armed key. -/
def Remembers (s : Receiver) : Prop :=
  s.accepted.Nodup ∧ ∃ A, s.reassembler.replayFilter.Tracks A ∧
    ∀ c, s.reassembler.crypto = some c → ∀ sequence : UInt32,
      (c.rxKey, sequence) ∈ s.accepted → sequence.toNat ∈ A

theorem Remembers.clear {s : Receiver} (h : s.Remembers) {r : FrameReassembler Arrival}
    (hr : r.replayFilter = {}) (hu : s.Unused r.crypto) (epoch : ℕ) :
    Remembers { s with reassembler := r, epoch } :=
  ⟨h.1, ∅, by simpa [hr] using ReplayFilter.tracks_empty,
    fun c hc sequence hm => absurd hm (hu c hc sequence)⟩

theorem Remembers.pushPacket {s : Receiver} (h : s.Remembers) (packetData : Bytes) :
    (s.operate lib (.pushPacket packetData)).1.Remembers := by
  obtain ⟨hn, A, ht, hA⟩ := h
  obtain ⟨A', ht', hsub, hacc⟩ := FrameReassembler.pushPacket_tracks lib ht
    ⟨s.epoch, s.reassembler.crypto, packetData⟩ packetData
  simp only [operate, Remembers, FrameReassembler.pushPacket_crypto]
  split_ifs with ha
  · obtain ⟨hfresh, hmem⟩ := hacc ha
    cases hc : s.reassembler.crypto with
    | none => simpa [acceptedUnder, hc] using ⟨hn, A', by simpa [hc] using ht'⟩
    | some c =>
      rw [hc] at ht'
      simp only [acceptedUnder, Option.map_some, Option.toList_some, Option.some.injEq,
        List.mem_append, List.mem_singleton, Prod.mk.injEq]
      refine ⟨?_, A', ht', ?_⟩
      · refine hn.append (List.nodup_singleton _) fun e he he' => hfresh ?_
        rw [List.mem_singleton.mp he'] at he
        exact hA c hc _ he
      · rintro _ rfl sequence (hm | ⟨-, rfl⟩)
        · exact hsub (hA c hc sequence hm)
        · exact hmem
  · rw [List.append_nil]
    exact ⟨hn, A', ht', fun c hc sequence hm => hsub (hA c hc sequence hm)⟩

/-- While the window is cleared only for unused keys, no sequence number is accepted twice
under one key. -/
theorem accepted_nodup_of_keepsWindow {ops : List Operation}
    (h : Machine.Guarded (operate lib) KeepsWindow {} ops) :
    (Machine.exec (operate lib) {} ops).1.accepted.Nodup := by
  refine (h.invariant (I := Remembers) (P := fun _ => True) (fun s op hs hop => ?_)
    ⟨List.nodup_nil, ∅, ReplayFilter.tracks_empty, by simp⟩).1.1
  refine ⟨?_, fun _ _ => trivial⟩
  cases op with
  | pushPacket packetData => exact hs.pushPacket packetData
  | setCrypto crypto => exact hs.clear (r := s.reassembler.setCrypto crypto) rfl hop _
  | setExpectedSessionId sessionId => exact hs
  | reset => exact hs.clear (r := s.reassembler.reset) rfl hop _

set_option maxRecDepth 100000 in
theorem accepted_nodup_of_keepsWindow_sample :
    let ops := [.setCrypto (some .sample), .pushPacket (samplePacket (some .sample)),
      .pushPacket (samplePacket (some .sample)), .setCrypto none, .reset]
    (Machine.exec (operate .sample) {} ops).1.accepted.Nodup ∧
      (Machine.exec (operate .sample) {} ops).1.accepted.length = 1 :=
  ⟨accepted_nodup_of_keepsWindow
    ⟨fun c _ sequence hm => (List.not_mem_nil hm).elim, trivial, trivial,
      fun c hc => (Option.some_ne_none c hc.symm).elim,
      fun c hc => (Option.some_ne_none c hc.symm).elim, trivial⟩, by decide⟩

set_option maxRecDepth 100000 in
/-- `Reset` lets a recorded packet in again. -/
theorem not_accepted_nodup_across_reset :
    ¬ (Machine.exec (operate .sample) {}
      [.setCrypto (some .sample), .pushPacket (samplePacket (some .sample)), .reset,
        .pushPacket (samplePacket (some .sample))]).1.accepted.Nodup := by decide

end Replay

end Receiver

end VeyraCam
