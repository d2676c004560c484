import VeyraCam.Library.Blocks
import VeyraCam.Packet.Provenance

/-! # Pending frames of a known stream

A pending entry that only fragments of one frame have reached holds a part of
that frame, and is complete exactly when it holds every fragment; what it is
then assembled to is the frame.
-/

namespace VeyraCam

open Blocks

variable {ω : Type*} {m : ℕ} {f : VideoFrame}

structure VideoFrame.Sendable (m : ℕ) (f : VideoFrame) : Prop where
  nonempty : f.data ≠ []
  count_le : count m f.data.length ≤ 65535

structure FragmentOf (m : ℕ) (f : VideoFrame) (i : ℕ) (header : PacketHeader) (payload : Bytes) :
    Prop where
  frameId : header.frameId = f.frameId
  timestampUs : header.timestampUs = f.timestampUs
  isKeyframe : header.isKeyframe = f.isKeyframe
  index : header.fragmentIndex = .ofNat i
  total : header.fragmentCount = .ofNat (count m f.data.length)
  payload : payload = block m f.data i

/-- The entry holds fragments of the frame and nothing else. -/
structure Partial (m : ℕ) (f : VideoFrame) (e : PendingFrame ω) : Prop where
  frameId : e.frameId = f.frameId
  timestampUs : e.timestampUs = f.timestampUs
  isKeyframe : e.isKeyframe = f.isKeyframe
  total : e.totalFragments = .ofNat (count m f.data.length)
  received : e.receivedFragments = .ofNat e.fragments.size
  fragment : ∀ i g, e.fragments.find? i = some g →
    i.toNat < count m f.data.length ∧ g.payload = block m f.data i.toNat

theorem toNat_injective : Function.Injective UInt16.toNat := fun _ _ => UInt16.toNat_inj.mp

theorem isSome_find?_ofNat_iff {ν : Type*} {m : OrderedMap UInt16 ν} {i : ℕ} (hi : i < 2 ^ 16) :
    (m.find? (.ofNat i)).isSome = true ↔ ∃ k ∈ m.keys, k.toNat = i := by
  rw [← OrderedMap.mem_keys_iff]
  constructor
  · exact fun hk => ⟨_, hk, UInt16.toNat_ofNat_of_lt' hi⟩
  · rintro ⟨k, hk, rfl⟩
    rwa [UInt16.ofNat_toNat]

namespace Partial

variable {e : PendingFrame ω}

theorem key_lt (h : Partial m f e) : ∀ i ∈ e.fragments.keys, i.toNat < count m f.data.length := by
  intro i hi
  obtain ⟨g, hg⟩ := Option.isSome_iff_exists.mp (OrderedMap.mem_keys_iff.mp hi)
  exact (h.fragment i g hg).1

theorem start {header : PacketHeader} {payload : Bytes} {i : ℕ}
    (hd : FragmentOf m f i header payload) :
    Partial m f (({} : PendingFrame ω).start header) where
  frameId := hd.frameId
  timestampUs := hd.timestampUs
  isKeyframe := hd.isKeyframe
  total := hd.total
  received := rfl
  fragment := fun _ _ hg => by cases hg

theorem addFragment (h : Partial m f e) {i : ℕ} (hi : i < 65536)
    (hlt : i < count m f.data.length) (origin : ω) :
    Partial m f (e.addFragment (.ofNat i) ⟨block m f.data i, origin⟩) := by
  have hnat : (UInt16.ofNat i).toNat = i := by
    rw [UInt16.toNat_ofNat', Nat.mod_eq_of_lt hi]
  unfold PendingFrame.addFragment
  split_ifs with hn
  · have hn' := Option.isNone_iff_eq_none.mp hn
    refine ⟨h.frameId, h.timestampUs, h.isKeyframe, h.total, ?_, fun j g hg => ?_⟩
    · simp only [OrderedMap.size_insert_of_none hn', h.received, UInt16.ofNat_add]; rfl
    · rw [OrderedMap.find?_insert] at hg
      split_ifs at hg with hj
      · obtain rfl := Option.some.inj hg
        subst hj
        rw [hnat]
        exact ⟨hlt, rfl⟩
      · exact h.fragment j g hg
  · exact h

theorem isComplete_iff (h : Partial m f e) (hm : 0 < m) (hf : f.Sendable m) :
    e.isComplete = true ↔
      ∀ i < count m f.data.length, (e.fragments.find? (.ofNat i)).isSome := by
  have hle := hf.count_le
  have hpos := count_pos hm (List.length_pos_iff.mpr hf.nonempty)
  have hsize := OrderedMap.size_le_of_lt toNat_injective h.key_lt
  have hiff : e.isComplete = true ↔ e.fragments.size = count m f.data.length := by
    simp only [PendingFrame.isComplete, h.received, h.total, Bool.and_eq_true, decide_eq_true_eq,
      ← UInt16.toNat_inj, UInt16.lt_iff_toNat_lt, UInt16.toNat_ofNat', UInt16.toNat_zero]
    omega
  rw [hiff, OrderedMap.size_eq_iff toNat_injective h.key_lt]
  exact forall₂_congr fun i hi => (isSome_find?_ofNat_iff (by omega)).symm

theorem assemble (h : Partial m f e) (hm : 0 < m) (hf : f.Sendable m)
    (hc : e.isComplete = true) : e.assemble = f := by
  have hle := hf.count_le
  have hparts : e.parts.flatMap (·.payload) = f.data := by
    have htotal : e.totalFragments.toNat = count m f.data.length := by
      rw [h.total, UInt16.toNat_ofNat', Nat.mod_eq_of_lt (by omega)]
    rw [PendingFrame.parts, htotal, List.filterMap_eq_flatMap_toList, List.flatMap_assoc]
    refine (List.flatMap_congr fun i hi => ?_).trans (flatMap_block_count hm f.data)
    have hi := List.mem_range.mp hi
    obtain ⟨g, hg⟩ := Option.isSome_iff_exists.mp ((h.isComplete_iff hm hf).mp hc i hi)
    have hpayload := (h.fragment _ g hg).2
    rw [UInt16.toNat_ofNat', Nat.mod_eq_of_lt (by omega)] at hpayload
    simp [hg, hpayload]
  cases f
  simp only [PendingFrame.assemble, hparts, h.frameId, h.timestampUs, h.isKeyframe]

theorem pendingWith {r : FrameReassembler ω} {header : PacketHeader} {payload : Bytes} {i : ℕ}
    (origin : ω) (hf : f.Sendable m) (h₀ : f.frameId ≠ 0) (hd : FragmentOf m f i header payload)
    (hi : i < count m f.data.length)
    (h : ∀ e, r.pendingFrames.find? f.frameId = some e → Partial m f e) :
    Partial m f (r.pendingWith origin header payload) ∧
      ∀ j < count m f.data.length,
        ((r.pendingWith origin header payload).fragments.find? (.ofNat j)).isSome ↔
          j = i ∨ ∃ e, r.pendingFrames.find? f.frameId = some e ∧
            (e.fragments.find? (.ofNat j)).isSome := by
  have hle := hf.count_le
  have hentry : ∃ e, Partial m f e ∧ (e = (({} : PendingFrame ω).start header) ∧
      r.pendingFrames.find? f.frameId = none ∨ r.pendingFrames.find? f.frameId = some e) ∧
      ((r.pendingFrames.find? header.frameId).getD {}).start header = e := by
    rw [hd.frameId]
    cases hr : r.pendingFrames.find? f.frameId with
    | none => exact ⟨_, .start hd, .inl ⟨rfl, rfl⟩, rfl⟩
    | some e =>
      have he := h e hr
      refine ⟨e, he, .inr rfl, ?_⟩
      rw [Option.getD_some, PendingFrame.start, if_neg (by rw [he.frameId]; exact h₀)]
  obtain ⟨e, hpart, hwas, he⟩ := hentry
  have hwith : r.pendingWith origin header payload =
      e.addFragment (.ofNat i) ⟨block m f.data i, origin⟩ := by
    rw [FrameReassembler.pendingWith, he, hd.index, hd.payload]
  rw [hwith]
  refine ⟨hpart.addFragment (by omega) hi origin, fun j hj => ?_⟩
  have hold : (e.fragments.find? (.ofNat j)).isSome ↔
      ∃ e, r.pendingFrames.find? f.frameId = some e ∧ (e.fragments.find? (.ofNat j)).isSome := by
    rcases hwas with ⟨rfl, hr⟩ | hr
    · simp [hr]
    · simp [hr]
  have hij : UInt16.ofNat j = UInt16.ofNat i ↔ j = i := by
    rw [← UInt16.toNat_inj, UInt16.toNat_ofNat', UInt16.toNat_ofNat',
      Nat.mod_eq_of_lt (by omega), Nat.mod_eq_of_lt (by omega)]
  rw [← hold, PendingFrame.addFragment]
  split_ifs with hn
  · rw [OrderedMap.find?_insert]
    split_ifs with hji
    · simp [hij.mp hji]
    · simp [mt hij.mpr hji]
  · refine ⟨.inr, fun hor => hor.elim (fun hji => ?_) id⟩
    subst hji
    exact Option.isSome_iff_ne_none.mpr fun hne => hn (Option.isNone_iff_eq_none.mpr hne)

end Partial

end VeyraCam
