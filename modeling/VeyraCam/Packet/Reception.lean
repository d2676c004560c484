import Mathlib.Data.List.Sort
import VeyraCam.Library.Machine
import VeyraCam.Packet.Transmission

/-! # Receiving over a lossy network

Whatever packets of one stream of frames arrive, in whatever order and however
often, the frames emitted are frames of the stream, each at most once and in
order, and the first is a keyframe. Every pending entry holds a part of the
frame under its identifier, also after the entry was evicted and made again.
-/

namespace VeyraCam

open FrameReassembler

variable {ω : Type*} {lib : Mbedtls} {rx : Option SessionCrypto} {m : ℕ}

def emitted (calls : List (Callback ω)) : List VideoFrame :=
  calls.filterMap fun
    | .frameReady frame _ => some frame
    | .missingKeyframe _ => none

def receive (lib : Mbedtls) (mark : Bytes → ω) (r : FrameReassembler ω) (packetData : Bytes) :
    FrameReassembler ω × List (Callback ω) :=
  let result := r.pushPacket lib (mark packetData) packetData
  (result.state, result.calls)

def framesOf (lib : Mbedtls) (mark : Bytes → ω) (r : FrameReassembler ω) (ds : List Bytes) :
    List VideoFrame :=
  emitted (Machine.exec (receive lib mark) r ds).2

@[simp] theorem emitted_append (calls calls' : List (Callback ω)) :
    emitted (calls ++ calls') = emitted calls ++ emitted calls' := List.filterMap_append

@[simp] theorem emitted_nil : emitted ([] : List (Callback ω)) = [] := rfl

@[simp] theorem emitted_missing {c : Prop} [Decidable c] (frameId : UInt32) :
    emitted (if c then [Callback.missingKeyframe frameId] else ([] : List (Callback ω))) = [] := by
  split_ifs <;> rfl

@[simp] theorem emitted_frameReady (frame : VideoFrame) (origins : List ω) :
    emitted [.frameReady frame origins] = [frame] := rfl

theorem emitted_eq_nil {calls : List (Callback ω)}
    (h : ∀ frame origins, .frameReady frame origins ∉ calls) : emitted calls = [] := by
  refine List.filterMap_eq_nil_iff.mpr fun call hcall => ?_
  cases call with
  | frameReady frame origins => exact absurd hcall (h frame origins)
  | missingKeyframe frameId => rfl

def VideoFrame.Before (f g : VideoFrame) : Prop := f.frameId < g.frameId

instance : Std.Irrefl VideoFrame.Before := ⟨fun _ => UInt32.lt_irrefl _⟩

instance : Std.Antisymm VideoFrame.Before :=
  ⟨fun _ _ h h' => absurd (UInt32.lt_trans h h') (UInt32.lt_irrefl _)⟩

theorem eq_of_frameId {fs : List VideoFrame} (h : fs.Pairwise VideoFrame.Before)
    {f g : VideoFrame} (hf : f ∈ fs) (hg : g ∈ fs) (he : f.frameId = g.frameId) : f = g := by
  have hn : (fs.map VideoFrame.frameId).Nodup := List.pairwise_map.mpr (h.imp UInt32.ne_of_lt)
  exact List.inj_on_of_nodup_map hn hf hg he

/-- What is true of a receiver and of the frames it has emitted, all from one stream. -/
structure Sound (m : ℕ) (fs : List VideoFrame) (r : FrameReassembler ω)
    (out : List VideoFrame) : Prop where
  pending : ∀ k e, r.pendingFrames.find? k = some e → ∃ f ∈ fs, f.frameId = k ∧ Partial m f e
  gate : r.waitingForKeyframe = true → out = []
  last : r.waitingForKeyframe = false →
    ∃ g, out.getLast? = some g ∧ g.frameId = r.lastEmittedFrameId
  subset : out ⊆ fs
  increasing : out.Pairwise VideoFrame.Before
  keyframe : ∀ g, out.head? = some g → g.isKeyframe = true

namespace Sound

variable {fs out : List VideoFrame} {r r' : FrameReassembler ω}

theorem congr (h : Sound m fs r out) (ha : r'.Alike r) : Sound m fs r' out :=
  ⟨by rw [ha.pendingFrames]; exact h.pending, by rw [ha.waitingForKeyframe]; exact h.gate,
    by rw [ha.waitingForKeyframe, ha.lastEmittedFrameId]; exact h.last, h.subset, h.increasing,
    h.keyframe⟩

theorem lt_of_not_isStale {frameId : UInt32} (h₁ : 1 ≤ frameId.toNat)
    (hl : r.lastEmittedFrameId.toNat < 2 ^ 31) (h : r.isStale frameId = false) :
    r.lastEmittedFrameId < frameId := by
  by_contra hlt
  have hle := UInt32.not_lt.mp hlt
  have hle' := UInt32.le_iff_toNat_le.mp hle
  have hsub := UInt32.toNat_sub_of_le _ _ hle
  have hbehind : r.lastEmittedFrameId - frameId < 0x7FFFFFFF := by
    rw [UInt32.lt_iff_toNat_lt, hsub]
    change _ < 2147483647
    omega
  simp [isStale, hle, hbehind] at h

/-- A frame whose packet is wanted comes after everything emitted. -/
theorem before_of_wants (h : Sound m fs r out)
    (hid : ∀ f ∈ fs, 1 ≤ f.frameId.toNat ∧ f.frameId.toNat < 2 ^ 31) {f : VideoFrame}
    (hf : f ∈ fs) {header : PacketHeader} (hframe : header.frameId = f.frameId)
    (hw : r.Wants header) : ∀ g ∈ out, VideoFrame.Before g f := by
  intro g hg
  cases hwait : r.waitingForKeyframe with
  | true => rw [h.gate hwait] at hg; cases hg
  | false =>
    obtain ⟨l, hl, hlid⟩ := h.last hwait
    obtain ⟨init, rfl⟩ := List.getLast?_eq_some_iff.mp hl
    have hstale : r.isStale f.frameId = false := by
      simpa [Wants, hwait, hframe] using hw
    have hlf : VideoFrame.Before l f := by
      have := (hid l (h.subset (by simp))).2
      rw [VideoFrame.Before, hlid]
      exact lt_of_not_isStale (hid f hf).1 (by rwa [← hlid]) hstale
    rcases List.mem_append.mp hg with hg | hg
    · exact UInt32.lt_trans
        ((List.pairwise_append.mp h.increasing).2.2 g hg l List.mem_cons_self) hlf
    · rwa [List.mem_singleton.mp hg]

theorem keyframe_of_wants (h : Sound m fs r out) {f : VideoFrame} {header : PacketHeader}
    (hkey : header.isKeyframe = f.isKeyframe) (hw : r.Wants header) :
    ∀ g, (out ++ [f]).head? = some g → g.isKeyframe = true := by
  intro g hg
  cases hout : out with
  | nil =>
    have hwait : r.waitingForKeyframe = true := by
      by_contra hne
      obtain ⟨l, hl, -⟩ := h.last (by simpa using hne)
      simp [hout] at hl
    obtain rfl : f = g := by simpa [hout] using hg
    rw [← hkey]
    simpa [Wants, hwait] using hw
  | cons a l => exact h.keyframe g (by simpa [hout] using hg)

theorem storeFragment (h : Sound m fs r out) (hm : 0 < m) (hs : ∀ f ∈ fs, f.Sendable m)
    (hid : ∀ f ∈ fs, 1 ≤ f.frameId.toNat ∧ f.frameId.toNat < 2 ^ 31)
    (hinc : fs.Pairwise VideoFrame.Before) {f : VideoFrame} (hf : f ∈ fs) {i : ℕ}
    (hi : i < Blocks.count m f.data.length) {header : PacketHeader} {payload : Bytes} {origin : ω}
    (hd : FragmentOf m f i header payload) (hw : r.Wants header) :
    Sound m fs (r.storeFragment origin header payload).state
      (out ++ emitted (r.storeFragment origin header payload).calls) := by
  have h₀ : f.frameId ≠ 0 := fun he => by simpa [he] using (hid f hf).1
  have hpart := (Partial.pendingWith origin (hs f hf) h₀ hd hi fun e he => by
    obtain ⟨g, hg, hgid, hpart⟩ := h.pending _ e he
    rwa [← eq_of_frameId hinc hg hf hgid]).1
  have hpending : ∀ k e,
      (r.storeFragment origin header payload).state.pendingFrames.find? k = some e →
      ∃ f ∈ fs, f.frameId = k ∧ Partial m f e := by
    intro k e he
    rcases find?_storeFragment he with ⟨hk, rfl⟩ | he
    · exact ⟨f, hf, by rw [hk, hd.frameId], hpart⟩
    · exact h.pending k e he
  rcases r.storeFragment_cases origin header payload rfl with ⟨hc, hres⟩ | ⟨-, hres⟩ <;>
    rw [hres] at hpending ⊢
  · rw [emitted_frameReady, hpart.assemble hm (hs f hf) hc]
    refine ⟨hpending, by simp, fun _ => ⟨f, by simp, hpart.frameId.symm⟩,
      List.append_subset.mpr ⟨h.subset, by simpa using hf⟩, ?_,
      h.keyframe_of_wants hd.isKeyframe hw⟩
    exact List.pairwise_append.mpr ⟨h.increasing, List.pairwise_singleton _ _,
      fun g hg l hl => List.mem_singleton.mp hl ▸ h.before_of_wants hid hf hd.frameId hw g hg⟩
  · rw [emitted_nil, List.append_nil]
    exact ⟨hpending, h.gate, h.last, h.subset, h.increasing, h.keyframe⟩

theorem pushPacket (h : Sound m fs r out) (hm : 0 < m) (hs : ∀ f ∈ fs, f.Sendable m)
    (hid : ∀ f ∈ fs, 1 ≤ f.frameId.toNat ∧ f.frameId.toNat < 2 ^ 31)
    (hinc : fs.Pairwise VideoFrame.Before) {f : VideoFrame} (hf : f ∈ fs) {i : ℕ}
    (hi : i < Blocks.count m f.data.length) {sessionId : UInt32} {packet : Bytes} {origin : ω}
    (hd : Carries lib r.crypto m sessionId f i packet) :
    Sound m fs (r.pushPacket lib origin packet).state
      (out ++ emitted (r.pushPacket lib origin packet).calls) := by
  obtain ⟨header, payload, hopen, hd, -⟩ := hd
  simp only [FrameReassembler.pushPacket, hopen]
  rcases r.acceptPacket_cases origin header payload with
    ⟨-, hres⟩ | ⟨-, -, -, hres⟩ | ⟨-, -, hres⟩ | ⟨-, hw, hres⟩ <;> rw [hres]
  · rwa [emitted_nil, List.append_nil]
  · rw [emitted_nil, List.append_nil]
    exact h.congr ⟨rfl, rfl, rfl, rfl⟩
  · rw [emitted_missing, List.append_nil]
    exact h.congr (alike_admitted r header)
  · exact (h.congr (alike_admitted r header)).storeFragment hm hs hid hinc hf hi hd
      (((alike_admitted r header).wants_iff header).mpr hw)

end Sound

/-- Over any deliveries of the packets sent for a list of frames, the frames emitted are a
subsequence of the list that starts with a keyframe. -/
theorem framesOf_sublist {tx : Option SessionCrypto} (hp : Paired lib tx rx) (sessionId : UInt32)
    {fs : List VideoFrame} (hinc : fs.Pairwise VideoFrame.Before)
    (hid : ∀ f ∈ fs, 1 ≤ f.frameId.toNat ∧ f.frameId.toNat < 2 ^ 31)
    (hs : ∀ f ∈ fs, f.Sendable (Packetizer.maxPlaintext ⟨sessionId, 0, tx⟩)) {ds : List Bytes}
    (hds : ∀ d ∈ ds, d ∈ sentPackets lib ⟨sessionId, 0, tx⟩ fs) :
    (framesOf lib id (setCrypto {} rx) ds).Sublist fs ∧
      ∀ g, (framesOf lib id (setCrypto {} rx) ds).head? = some g → g.isKeyframe = true := by
  have hsound : (Machine.exec (receive lib id) (setCrypto {} rx) ds).1.crypto = rx ∧
      Sound (Packetizer.maxPlaintext ⟨sessionId, 0, tx⟩) fs
        (Machine.exec (receive lib id) (setCrypto {} rx) ds).1
        (framesOf lib id (setCrypto {} rx) ds) := by
    refine Machine.history_invariant (receive lib id) (setCrypto {} rx) ds
      (I := fun _ r calls => r.crypto = rx ∧
        Sound (Packetizer.maxPlaintext ⟨sessionId, 0, tx⟩) fs r (emitted calls)) ?_ ?_
    · exact ⟨rfl, by simp [setCrypto], fun _ => rfl, by simp [setCrypto], by simp, by simp,
        by simp⟩
    · rintro pre d post rfl ⟨hcrypto, hsound⟩
      obtain ⟨f, hf, i, hi, hd⟩ := carries_of_mem_sentPackets (p := ⟨sessionId, 0, tx⟩) hp hs
        (hds d (by simp))
      rw [emitted_append]
      exact ⟨(pushPacket_crypto ..).trans hcrypto, hsound.pushPacket
        (Packetizer.maxPlaintext_pos _) hs hid hinc hf hi (by rwa [hcrypto])⟩
  exact ⟨List.sublist_of_subperm_of_pairwise
    (List.subperm_of_subset hsound.2.increasing.nodup hsound.2.subset) hsound.2.increasing hinc,
    hsound.2.keyframe⟩

set_option maxRecDepth 100000 in
theorem framesOf_sublist_sample :
    let fs : List VideoFrame := [⟨1, 5, true, [1, 2, 3]⟩, ⟨2, 6, false, [4]⟩]
    let sent := sentPackets .sample ⟨7, 0, some .sample⟩ fs
    let out := framesOf .sample id (setCrypto {} (some .sample)) (sent.reverse ++ sent)
    (out.Sublist fs ∧ ∀ g, out.head? = some g → g.isKeyframe = true) ∧ out.length = 1 := by
  have hp : Paired .sample (some .sample) (some .sample) :=
    .keyed SessionCrypto.sample_mirrors Mbedtls.sample_decryptInvertsEncrypt
  refine ⟨framesOf_sublist hp 7 ?_ ?_ ?_ ?_, by decide⟩
  · exact List.pairwise_pair.mpr (show (1 : UInt32) < 2 by decide)
  · decide
  · simp only [List.forall_mem_cons, List.not_mem_nil, false_imp_iff, imp_true_iff, and_true]
    exact ⟨⟨by decide, by decide⟩, by decide, by decide⟩
  · intro d hd
    simpa using hd

end VeyraCam
