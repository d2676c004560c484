import VeyraCam.Packet.Reception

/-! # The round trip

When every packet arrives, the packets of a frame after those of the frames
before it and none 64 numbers late, the frames emitted are the frames sent.
Until a frame is complete its packets are all in the one pending entry.
-/

namespace VeyraCam

open FrameReassembler

variable {ω : Type*} {lib : Mbedtls} {rx : Option SessionCrypto} {m : ℕ} {sessionId : UInt32}
  {f g : VideoFrame} {i j : ℕ} {d d' : Bytes}

def frameIdOf (packet : Bytes) : UInt32 := (PacketHeader.ofBytes packet).frameId

theorem Carries.frameIdOf (h : Carries lib rx m sessionId f i d) :
    VeyraCam.frameIdOf d = f.frameId := by
  obtain ⟨header, payload, hopen, hd, -⟩ := h
  rw [VeyraCam.frameIdOf, ← openPacket_header hopen, hd.frameId]

theorem Carries.index (h : Carries lib rx m sessionId f i d) (h' : Carries lib rx m sessionId g j d)
    (hi : i < 65536) (hj : j < 65536) : i = j := by
  obtain ⟨header, payload, hopen, hd, -⟩ := h
  obtain ⟨header', payload', hopen', hd', -⟩ := h'
  obtain ⟨rfl, -⟩ := Prod.mk.inj (Option.some.inj (hopen.symm.trans hopen'))
  have he := congrArg UInt16.toNat (hd.index.symm.trans hd'.index)
  rwa [UInt16.toNat_ofNat', UInt16.toNat_ofNat', Nat.mod_eq_of_lt hi, Nat.mod_eq_of_lt hj] at he

/-- The packets of a stream: one for each fragment of each frame, with distinct numbers. -/
structure Stream (lib : Mbedtls) (rx : Option SessionCrypto) (m : ℕ) (sessionId : UInt32)
    (fs : List VideoFrame) (sent : Set Bytes) : Prop where
  carries : ∀ d ∈ sent, ∃ f ∈ fs, ∃ i < Blocks.count m f.data.length,
    Carries lib rx m sessionId f i d
  covers : ∀ f ∈ fs, ∀ i < Blocks.count m f.data.length, ∃ d ∈ sent,
    Carries lib rx m sessionId f i d
  sequence_inj : Set.InjOn sequenceOf sent
  slot_inj : ∀ f ∈ fs, ∀ i < Blocks.count m f.data.length, ∀ d ∈ sent, ∀ d' ∈ sent,
    Carries lib rx m sessionId f i d → Carries lib rx m sessionId f i d' → d = d'

theorem packet_eq_of_slot {p : Packetizer} {fs : List VideoFrame} (hnodup : fs.Nodup)
    {s : VideoFrame × ℕ} (hi : (slots m fs)[i]? = some s)
    (hd : ((p.advance i).sendSlot lib s).packet = some d) (hj : (slots m fs)[j]? = some s)
    (hd' : ((p.advance j).sendSlot lib s).packet = some d') : d = d' := by
  obtain ⟨_, hi⟩ := List.getElem?_eq_some_iff.mp hi
  obtain ⟨_, hj⟩ := List.getElem?_eq_some_iff.mp hj
  obtain rfl := (nodup_slots _ hnodup).getElem_inj_iff.mp (hi.trans hj.symm)
  exact Option.some.inj (hd.symm.trans hd')

/-- A packet carries one fragment only. -/
theorem slot_eq_of_carries {fs : List VideoFrame} (hinc : fs.Pairwise VideoFrame.Before)
    (hs : ∀ f ∈ fs, f.Sendable m) (hf : f ∈ fs) (hi : i < Blocks.count m f.data.length)
    (hg : g ∈ fs) (hj : j < Blocks.count m g.data.length) (h : Carries lib rx m sessionId f i d)
    (h' : Carries lib rx m sessionId g j d) : (f, i) = (g, j) := by
  have hle := (hs f hf).count_le
  have hle' := (hs g hg).count_le
  refine Prod.ext (eq_of_frameId hinc hf hg ?_) (h.index h' (by omega) (by omega))
  rw [← h.frameIdOf, h'.frameIdOf]

/-- The packets of fewer than `2 ^ 32` fragments, none of which fails to be encrypted. -/
theorem sentPackets_stream {p : Packetizer} (hp : Paired lib p.crypto rx)
    (hk : ∀ c, p.crypto = some c → lib.EncryptSucceeds ∧ c.hasKeys = true)
    {fs : List VideoFrame} (hinc : fs.Pairwise VideoFrame.Before)
    (hs : ∀ f ∈ fs, f.Sendable p.maxPlaintext) (hlen : (slots p.maxPlaintext fs).length < 2 ^ 32) :
    Stream lib rx p.maxPlaintext p.sessionId fs {d | d ∈ sentPackets lib p fs} := by
  have hcarries : ∀ {j s d}, ((p.advance j).sendSlot lib s).packet = some d →
      Carries lib rx p.maxPlaintext p.sessionId s.1 s.2 d ∧
        sequenceOf d = p.packetSequence + .ofNat j := fun {j s d} hd =>
    Packetizer.sendSlot_carries (p := p.advance j) hp hd
  refine ⟨fun d hd => carries_of_mem_sentPackets hp hs hd, fun f hf i hi => ?_, ?_, ?_⟩
  · obtain ⟨j, hj⟩ := List.mem_iff_getElem?.mp (mem_slots.mpr ⟨hf, hi⟩)
    obtain ⟨d, hd⟩ := Option.isSome_iff_exists.mp
      (Packetizer.sendPacket_isSome (p := p.advance j) hk ((p.advance j).slotHeader (f, i))
        (Blocks.block p.maxPlaintext f.data i))
    exact ⟨d, (mem_sentPackets_iff hs).mpr ⟨j, _, hj, hd⟩, (hcarries hd).1⟩
  · intro d hd d' hd' he
    obtain ⟨j, s, hj, hd⟩ := (mem_sentPackets_iff hs).mp hd
    obtain ⟨j', s', hj', hd'⟩ := (mem_sentPackets_iff hs).mp hd'
    obtain ⟨hlt, -⟩ := List.getElem?_eq_some_iff.mp hj
    obtain ⟨hlt', -⟩ := List.getElem?_eq_some_iff.mp hj'
    rw [(hcarries hd).2, (hcarries hd').2, UInt32.add_right_inj, ← UInt32.toNat_inj,
      UInt32.toNat_ofNat', UInt32.toNat_ofNat', Nat.mod_eq_of_lt (by omega),
      Nat.mod_eq_of_lt (by omega)] at he
    subst he
    obtain rfl := Option.some.inj (hj.symm.trans hj')
    exact Option.some.inj (hd.symm.trans hd')
  · intro f hf i hi d hd d' hd' hc hc'
    have hslot {j s d} (hj : (slots p.maxPlaintext fs)[j]? = some s)
        (hd : ((p.advance j).sendSlot lib s).packet = some d)
        (hc : Carries lib rx p.maxPlaintext p.sessionId f i d) : s = (f, i) := by
      obtain ⟨hsf, hsi⟩ := mem_slots.mp (List.mem_of_getElem? hj)
      exact slot_eq_of_carries hinc hs hsf hsi hf hi (hcarries hd).1 hc
    obtain ⟨j, s, hj, hd⟩ := (mem_sentPackets_iff hs).mp hd
    obtain ⟨j', s', hj', hd'⟩ := (mem_sentPackets_iff hs).mp hd'
    obtain rfl := hslot hj hd hc
    obtain rfl := hslot hj' hd' hc'
    exact packet_eq_of_slot hinc.nodup hj hd hj' hd'

def Complete (lib : Mbedtls) (rx : Option SessionCrypto) (m : ℕ) (sessionId : UInt32)
    (seen : Set Bytes) (f : VideoFrame) : Prop :=
  ∀ i < Blocks.count m f.data.length, ∃ d ∈ seen, Carries lib rx m sessionId f i d

theorem Complete.mono {seen seen' : Set Bytes} (h : Complete lib rx m sessionId seen f)
    (hsub : seen ⊆ seen') : Complete lib rx m sessionId seen' f := fun i hi =>
  let ⟨d, hd, hc⟩ := h i hi
  ⟨d, hsub hd, hc⟩

theorem Complete.of_insert {seen : Set Bytes} (hd : Carries lib rx m sessionId f i d)
    (hne : g.frameId ≠ f.frameId) (h : Complete lib rx m sessionId (insert d seen) g) :
    Complete lib rx m sessionId seen g := by
  intro j hj
  obtain ⟨d', rfl | hd', hc⟩ := h j hj
  · exact absurd (hc.frameIdOf.symm.trans hd.frameIdOf) hne
  · exact ⟨d', hd', hc⟩

/-- A receiver that has seen a set of packets of the stream, frame after frame: it has
emitted the complete frames, and holds the fragments of the one that is not. -/
structure Synced (lib : Mbedtls) (rx : Option SessionCrypto) (m : ℕ) (sessionId : UInt32)
    (fs : List VideoFrame) (seen : Set Bytes) (r : FrameReassembler ω) (out : List VideoFrame) :
    Prop where
  crypto : r.crypto = rx
  filter : r.replayFilter.Tracks ((fun d => (sequenceOf d).toNat) '' seen)
  session : r.sessionLocked = true → r.expectedSessionId = sessionId
  emitted : ∃ rest, fs = out ++ rest ∧ (∀ f ∈ out, Complete lib rx m sessionId seen f) ∧
    ∀ f ∈ rest, ¬ Complete lib rx m sessionId seen f
  gate : r.waitingForKeyframe = true → out = []
  last : r.waitingForKeyframe = false →
    ∃ g ∈ fs, Complete lib rx m sessionId seen g ∧ g.frameId = r.lastEmittedFrameId
  pending : ∀ k e, r.pendingFrames.find? k = some e → ∃ f ∈ fs, f.frameId = k ∧ Partial m f e ∧
    ¬ Complete lib rx m sessionId seen f ∧ (∃ d ∈ seen, ∃ i, Carries lib rx m sessionId f i d) ∧
    ∀ i < Blocks.count m f.data.length,
      (e.fragments.find? (.ofNat i)).isSome ↔ ∃ d ∈ seen, Carries lib rx m sessionId f i d
  stored : ∀ f ∈ fs, ∀ i, ∀ d ∈ seen, Carries lib rx m sessionId f i d →
    ¬ Complete lib rx m sessionId seen f → (r.pendingFrames.find? f.frameId).isSome

/-- The next packet to arrive: packets of earlier frames have been seen, none of a later
frame has, and none that is 64 numbers ahead. -/
structure Next (sent seen : Set Bytes) (d : Bytes) : Prop where
  mem : d ∈ sent
  earlier : ∀ e ∈ sent, frameIdOf e < frameIdOf d → e ∈ seen
  later : ∀ e ∈ seen, frameIdOf d < frameIdOf e → d ∈ seen
  window : d ∉ seen → ∀ e ∈ seen, (sequenceOf e).toNat < (sequenceOf d).toNat + 64

/-- A packet arrives next that has not been seen, and carries a fragment of a frame. -/
structure Fresh (lib : Mbedtls) (rx : Option SessionCrypto) (m : ℕ) (sessionId : UInt32)
    (fs : List VideoFrame) (sent seen : Set Bytes) (f : VideoFrame) (i : ℕ) (d : Bytes)
    (header : PacketHeader) (payload : Bytes) : Prop where
  next : Next sent seen d
  new : d ∉ seen
  mem : f ∈ fs
  lt : i < Blocks.count m f.data.length
  carries : Carries lib rx m sessionId f i d
  incomplete : ¬ Complete lib rx m sessionId seen f
  fragment : FragmentOf m f i header payload

theorem not_complete {fs : List VideoFrame} {sent seen : Set Bytes}
    (T : Stream lib rx m sessionId fs sent) (hsub : seen ⊆ sent) (hf : f ∈ fs)
    (hi : i < Blocks.count m f.data.length) (hmem : d ∈ sent)
    (hd : Carries lib rx m sessionId f i d) (hnew : d ∉ seen) :
    ¬ Complete lib rx m sessionId seen f := by
  intro hc
  obtain ⟨d', hd', hcar⟩ := hc i hi
  rw [T.slot_inj f hf i hi d hmem d' (hsub hd') hd hcar] at hnew
  exact hnew hd'

namespace Fresh

variable {fs : List VideoFrame} {sent seen : Set Bytes} {header : PacketHeader} {payload : Bytes}

theorem complete_of_lt (F : Fresh lib rx m sessionId fs sent seen f i d header payload)
    (T : Stream lib rx m sessionId fs sent) (hg : g ∈ fs) (hlt : g.frameId < f.frameId) :
    Complete lib rx m sessionId seen g := by
  intro j hj
  obtain ⟨e, he, hc⟩ := T.covers g hg j hj
  exact ⟨e, F.next.earlier e he (by rwa [hc.frameIdOf, F.carries.frameIdOf]), hc⟩

theorem le_of_seen (F : Fresh lib rx m sessionId fs sent seen f i d header payload)
    (hd' : d' ∈ seen) (hc : Carries lib rx m sessionId g j d') : g.frameId ≤ f.frameId := by
  by_contra hlt
  exact F.new (F.next.later d' hd' (by
    rwa [F.carries.frameIdOf, hc.frameIdOf, ← UInt32.not_le]))

theorem complete_of_ne (F : Fresh lib rx m sessionId fs sent seen f i d header payload)
    (hinc : fs.Pairwise VideoFrame.Before) (hg : g ∈ fs) (hne : g ≠ f)
    (hc : Complete lib rx m sessionId (insert d seen) g) : Complete lib rx m sessionId seen g :=
  hc.of_insert F.carries fun hid => hne (eq_of_frameId hinc hg F.mem hid)

end Fresh

namespace Synced

variable {fs out : List VideoFrame} {sent seen : Set Bytes} {r : FrameReassembler ω}
  {header : PacketHeader} {payload : Bytes} {origin : ω}

theorem emitted_of_new (h : Synced lib rx m sessionId fs seen r out)
    (F : Fresh lib rx m sessionId fs sent seen f i d header payload)
    (T : Stream lib rx m sessionId fs sent) (hinc : fs.Pairwise VideoFrame.Before) :
    ∃ rest, fs = out ++ f :: rest ∧
      (∀ g ∈ out, Complete lib rx m sessionId (insert d seen) g) ∧
      ∀ g ∈ rest, ¬ Complete lib rx m sessionId (insert d seen) g := by
  obtain ⟨rest, rfl, hout, hrest⟩ := h.emitted
  have hout' : ∀ g ∈ out, Complete lib rx m sessionId (insert d seen) g := fun g hg =>
    (hout g hg).mono (Set.subset_insert _ _)
  have hfrest : f ∈ rest := (List.mem_append.mp F.mem).resolve_left fun hfo =>
    F.incomplete (hout f hfo)
  obtain ⟨as, bs, rfl⟩ := List.append_of_mem hfrest
  have hsorted := (List.pairwise_append.mp hinc).2.1
  cases as with
  | nil =>
    refine ⟨bs, rfl, hout', fun g hg hc => hrest g (List.mem_cons_of_mem _ hg) ?_⟩
    refine F.complete_of_ne hinc (by simp [hg]) ?_ hc
    rintro rfl
    exact UInt32.lt_irrefl _ ((List.pairwise_cons.mp hsorted).1 g hg)
  | cons a as =>
    have hlt : a.frameId < f.frameId := (List.pairwise_cons.mp hsorted).1 f (by simp)
    exact absurd (F.complete_of_lt T (by simp) hlt) (hrest a (by simp))

theorem pending_only (h : Synced lib rx m sessionId fs seen r out)
    (F : Fresh lib rx m sessionId fs sent seen f i d header payload)
    (T : Stream lib rx m sessionId fs sent) {k : UInt32} {e : PendingFrame ω}
    (he : r.pendingFrames.find? k = some e) : k = f.frameId := by
  obtain ⟨g, hg, rfl, -, hnc, ⟨d', hd', j, hc⟩, -⟩ := h.pending k e he
  rcases UInt32.lt_or_eq_of_le (F.le_of_seen hd' hc) with hlt | heq
  · exact absurd (F.complete_of_lt T hg hlt) hnc
  · exact heq

theorem admits (h : Synced lib rx m sessionId fs seen r out)
    (T : Stream lib rx m sessionId fs sent) (hsub : seen ⊆ sent) (hn : Next sent seen d)
    (hnew : d ∉ seen) (hseq : header.sequence = sequenceOf d)
    (hsession : header.sessionId = sessionId) : r.Admits header := by
  refine ⟨?_, fun hl => by rw [hsession, h.session hl]⟩
  rw [(h.filter.accept header.sequence).1, hseq]
  constructor
  · rintro ⟨e, he, heq⟩
    rw [T.sequence_inj (hsub he) hn.mem (UInt32.toNat_inj.mp heq)] at he
    exact hnew he
  · rintro _ ⟨e, he, rfl⟩
    exact hn.window hnew e he

theorem wants (h : Synced lib rx m sessionId fs seen r out)
    (F : Fresh lib rx m sessionId fs sent seen f i d header payload)
    (T : Stream lib rx m sessionId fs sent) (hm : 0 < m) (hs : ∀ f ∈ fs, f.Sendable m)
    (hkey : ∀ g, fs.head? = some g → g.isKeyframe = true)
    (hinc : fs.Pairwise VideoFrame.Before) : r.Wants header := by
  unfold Wants
  split_ifs with hwait
  · obtain ⟨rest, hfs, -, -⟩ := h.emitted_of_new F T hinc
    rw [h.gate hwait, List.nil_append] at hfs
    rw [F.fragment.isKeyframe]
    exact hkey f (by rw [hfs]; rfl)
  · obtain ⟨g, hg, hc, hlast⟩ := h.last (by simpa using hwait)
    obtain ⟨d', hd', hcar⟩ := hc 0
      (Blocks.count_pos hm (List.length_pos_iff.mpr (hs g hg).nonempty))
    have hlt : ¬ f.frameId ≤ r.lastEmittedFrameId := by
      rw [← hlast]
      intro hle
      have heq := UInt32.le_antisymm hle (F.le_of_seen hd' hcar)
      exact F.incomplete (by rwa [eq_of_frameId hinc F.mem hg heq])
    simp [isStale, F.fragment.frameId, hlt]

theorem refused (h : Synced lib rx m sessionId fs seen r out) (hold : d ∈ seen)
    (hseq : header.sequence = sequenceOf d) :
    (r.replayFilter.accept header.sequence).1 = false := by
  rw [Bool.eq_false_iff, Ne, (h.filter.accept header.sequence).1, hseq]
  exact fun hadm => hadm.1 ⟨d, hold, rfl⟩

theorem pendingWith (h : Synced lib rx m sessionId fs seen r out)
    (F : Fresh lib rx m sessionId fs sent seen f i d header payload) (origin : ω)
    (hs : ∀ f ∈ fs, f.Sendable m) (h₀ : ∀ f ∈ fs, f.frameId ≠ 0)
    (hinc : fs.Pairwise VideoFrame.Before) :
    Partial m f (r.pendingWith origin header payload) ∧
      ∀ j < Blocks.count m f.data.length,
        ((r.pendingWith origin header payload).fragments.find? (.ofNat j)).isSome ↔
          ∃ d' ∈ insert d seen, Carries lib rx m sessionId f j d' := by
  have hle := (hs f F.mem).count_le
  have hlt := F.lt
  have hentry : ∀ e, r.pendingFrames.find? f.frameId = some e → Partial m f e ∧
      ∀ j < Blocks.count m f.data.length,
        (e.fragments.find? (.ofNat j)).isSome ↔ ∃ d ∈ seen, Carries lib rx m sessionId f j d := by
    intro e he
    obtain ⟨g, hg, hid, hpart, -, -, hiff⟩ := h.pending _ e he
    obtain rfl := eq_of_frameId hinc hg F.mem hid
    exact ⟨hpart, hiff⟩
  obtain ⟨hpart, hfind⟩ := Partial.pendingWith origin (hs f F.mem) (h₀ f F.mem) F.fragment F.lt
    fun e he => (hentry e he).1
  refine ⟨hpart, fun j hj => (hfind j hj).trans ⟨?_, ?_⟩⟩
  · rintro (rfl | ⟨e, he, hsome⟩)
    · exact ⟨d, .inl rfl, F.carries⟩
    · obtain ⟨d', hd', hc⟩ := ((hentry e he).2 j hj).mp hsome
      exact ⟨d', .inr hd', hc⟩
  · rintro ⟨d', rfl | hd', hc⟩
    · exact .inl (hc.index F.carries (by omega) (by omega))
    · obtain ⟨e, he⟩ := Option.isSome_iff_exists.mp (h.stored f F.mem j d' hd' hc F.incomplete)
      exact .inr ⟨e, he, ((hentry e he).2 j hj).mpr ⟨d', hd', hc⟩⟩

theorem find?_insert (h : Synced lib rx m sessionId fs seen r out)
    (F : Fresh lib rx m sessionId fs sent seen f i d header payload)
    (T : Stream lib rx m sessionId fs sent) {k : UInt32} {e e' : PendingFrame ω}
    (he : (r.pendingFrames.insert header.frameId e').find? k = some e) :
    k = f.frameId ∧ e = e' := by
  rw [OrderedMap.find?_insert, F.fragment.frameId] at he
  split_ifs at he with hk
  · exact ⟨hk, (Option.some.inj he).symm⟩
  · exact absurd (h.pending_only F T he) hk

theorem eq_of_carries (h : Synced lib rx m sessionId fs seen r out)
    (F : Fresh lib rx m sessionId fs sent seen f i d header payload)
    (T : Stream lib rx m sessionId fs sent) (hinc : fs.Pairwise VideoFrame.Before) (hg : g ∈ fs)
    (hd' : d' ∈ insert d seen) (hc : Carries lib rx m sessionId g j d')
    (hng : ¬ Complete lib rx m sessionId (insert d seen) g) : g = f := by
  rcases hd' with rfl | hd'
  · exact eq_of_frameId hinc hg F.mem (hc.frameIdOf.symm.trans F.carries.frameIdOf)
  · have hng' : ¬ Complete lib rx m sessionId seen g := fun hcg =>
      hng (hcg.mono (Set.subset_insert _ _))
    obtain ⟨e, he⟩ := Option.isSome_iff_exists.mp (h.stored g hg j d' hd' hc hng')
    exact eq_of_frameId hinc hg F.mem (h.pending_only F T he)

/-- Storing the payload of a new packet, in a state that differs from the receiver's
only in what the packet's admission changed. -/
theorem storeFragment (h : Synced lib rx m sessionId fs seen r out)
    (F : Fresh lib rx m sessionId fs sent seen f i d header payload)
    (T : Stream lib rx m sessionId fs sent) (hm : 0 < m) (hs : ∀ f ∈ fs, f.Sendable m)
    (h₀ : ∀ f ∈ fs, f.frameId ≠ 0) (hinc : fs.Pairwise VideoFrame.Before)
    {r' : FrameReassembler ω} (ha : r'.Alike r)
    (hfilter : r'.replayFilter.Tracks ((fun d => (sequenceOf d).toNat) '' insert d seen))
    (hsession : r'.expectedSessionId = sessionId) :
    Synced lib rx m sessionId fs (insert d seen) (r'.storeFragment origin header payload).state
      (out ++ VeyraCam.emitted (r'.storeFragment origin header payload).calls) := by
  obtain ⟨rest, hfs, hout, hrest⟩ := h.emitted_of_new F T hinc
  obtain ⟨hpart, hfind⟩ := h.pendingWith F origin hs h₀ hinc
  rw [← ha.pendingWith_eq] at hpart hfind
  have hcomplete : (r'.pendingWith origin header payload).isComplete = true ↔
      Complete lib rx m sessionId (insert d seen) f :=
    (hpart.isComplete_iff hm (hs f F.mem)).trans (forall₂_congr hfind)
  have hkeys : ∀ k e, (r'.pendingFrames.insert header.frameId
      (r'.pendingWith origin header payload)).find? k = some e →
      k = f.frameId ∧ e = r'.pendingWith origin header payload := fun k e he =>
    h.find?_insert F T (by rwa [← ha.pendingFrames])
  have hcrypto := ha.crypto.trans h.crypto
  rcases r'.storeFragment_cases origin header payload rfl with ⟨hc, hres⟩ | ⟨hc, hres⟩
  · have hcf := hcomplete.mp hc
    rw [hres, emitted_frameReady, hpart.assemble hm (hs f F.mem) hc]
    refine ⟨hcrypto, hfilter, fun _ => hsession, ⟨rest, by simpa using hfs, ?_, hrest⟩,
      by simp, fun _ => ⟨f, F.mem, hcf, hpart.frameId.symm⟩, fun k e he => ?_,
      fun g hg j d' hd' hcar hng => ?_⟩
    · exact List.forall_mem_append.mpr ⟨hout, List.forall_mem_singleton.mpr hcf⟩
    · rw [OrderedMap.find?_eraseUpTo] at he
      split_ifs at he with hle
      rw [(hkeys k e he).1, hpart.frameId] at hle
      exact absurd (UInt32.le_refl _) hle
    · rw [h.eq_of_carries F T hinc hg hd' hcar hng] at hng
      exact absurd hcf hng
  · have hncf : ¬ Complete lib rx m sessionId (insert d seen) f := by
      rw [← hcomplete, hc]; simp
    have hone : (r'.pendingFrames.insert header.frameId
        (r'.pendingWith origin header payload)).size ≤ 1 := OrderedMap.size_le_one fun k hk => by
      obtain ⟨e, he⟩ := Option.isSome_iff_exists.mp (OrderedMap.mem_keys_iff.mp hk)
      exact (hkeys k e he).1
    rw [hres, emitted_nil, List.append_nil, if_neg (by omega)]
    refine ⟨hcrypto, hfilter, fun _ => hsession, ⟨f :: rest, hfs, hout, ?_⟩,
      fun hw => h.gate (ha.waitingForKeyframe ▸ hw), fun hw => ?_, fun k e he => ?_,
      fun g hg j d' hd' hcar hng => ?_⟩
    · exact List.forall_mem_cons.mpr ⟨hncf, hrest⟩
    · obtain ⟨g, hg, hcg, hl⟩ := h.last (ha.waitingForKeyframe ▸ hw)
      exact ⟨g, hg, hcg.mono (Set.subset_insert _ _), hl.trans ha.lastEmittedFrameId.symm⟩
    · obtain ⟨rfl, rfl⟩ := hkeys k e he
      exact ⟨f, F.mem, rfl, hpart, hncf, ⟨d, .inl rfl, i, F.carries⟩, hfind⟩
    · rw [h.eq_of_carries F T hinc hg hd' hcar hng, ← F.fragment.frameId,
        OrderedMap.find?_insert_self]
      rfl

theorem pushPacket (h : Synced lib rx m sessionId fs seen r out)
    (T : Stream lib rx m sessionId fs sent) (hm : 0 < m) (hs : ∀ f ∈ fs, f.Sendable m)
    (h₀ : ∀ f ∈ fs, f.frameId ≠ 0) (hkey : ∀ g, fs.head? = some g → g.isKeyframe = true)
    (hinc : fs.Pairwise VideoFrame.Before) (hsub : seen ⊆ sent) (hn : Next sent seen d) :
    Synced lib rx m sessionId fs (insert d seen) (r.pushPacket lib origin d).state
      (out ++ VeyraCam.emitted (r.pushPacket lib origin d).calls) := by
  obtain ⟨f, hf, i, hi, header, payload, hopen, hdf, hsession⟩ := T.carries d hn.mem
  have hseq : header.sequence = sequenceOf d := by rw [sequenceOf, ← openPacket_header hopen]
  simp only [FrameReassembler.pushPacket, h.crypto, hopen]
  by_cases hold : d ∈ seen
  · rw [Set.insert_eq_of_mem hold]
    rwa [acceptPacket_of_refused (h.refused hold hseq), emitted_nil, List.append_nil]
  · have hd : Carries lib rx m sessionId f i d := ⟨header, payload, hopen, hdf, hsession⟩
    have F : Fresh lib rx m sessionId fs sent seen f i d header payload :=
      ⟨hn, hold, hf, hi, hd, not_complete T hsub hf hi hn.mem hd hold, hdf⟩
    have hadm := h.admits T hsub hn hold hseq hsession
    rw [acceptPacket_of_admits hadm, if_pos (h.wants F T hm hs hkey hinc)]
    refine h.storeFragment F T hm hs h₀ hinc (alike_admitted r header) ?_
      ((admitted_expectedSessionId hadm).trans hsession)
    rw [Set.image_insert_eq, ← hseq, admitted_replayFilter]
    exact (h.filter.accept header.sequence).2 hadm.1

end Synced

/-- Deliveries of all the packets sent, any of them again later: the packets of a frame
come after those of the frames before it, and none comes first after one that is 64
numbers ahead. -/
structure Schedule (sent ds : List Bytes) : Prop where
  complete : ∀ d ∈ sent, d ∈ ds
  genuine : ∀ d ∈ ds, d ∈ sent
  inOrder : ∀ pre d post, ds = pre ++ d :: post →
    ∀ e ∈ sent, frameIdOf e < frameIdOf d → e ∈ pre
  window : ∀ pre d post, ds = pre ++ d :: post → d ∉ pre →
    ∀ e ∈ pre, (sequenceOf e).toNat < (sequenceOf d).toNat + 64

theorem Schedule.next {sent ds pre post : List Bytes} (h : Schedule sent ds)
    (he : ds = pre ++ d :: post) : Next {d | d ∈ sent} {d | d ∈ pre} d where
  mem := h.genuine d (by simp [he])
  earlier := h.inOrder pre d post he
  later := fun e hm hlt => by
    obtain ⟨as, bs, rfl⟩ := List.append_of_mem hm
    have hd := h.inOrder as e (bs ++ d :: post) (by simp [he]) d (h.genuine d (by simp [he])) hlt
    exact List.mem_append_left _ hd
  window := h.window pre d post he

theorem pairwise_slots (m : ℕ) {fs : List VideoFrame} (hinc : fs.Pairwise VideoFrame.Before) :
    (slots m fs).Pairwise fun s t => s.1.frameId ≤ t.1.frameId := by
  refine List.pairwise_flatMap.mpr ⟨fun f _ => ?_, hinc.imp fun hlt s hs t ht => ?_⟩
  · exact List.pairwise_map.mpr (List.pairwise_of_forall fun _ _ => UInt32.le_refl _)
  · obtain ⟨i, -, rfl⟩ := List.mem_map.mp hs
    obtain ⟨j, -, rfl⟩ := List.mem_map.mp ht
    exact UInt32.le_of_lt hlt

theorem pairwise_sentPackets {p : Packetizer} (hp : Paired lib p.crypto rx)
    (h₀ : p.packetSequence = 0) {fs : List VideoFrame} (hinc : fs.Pairwise VideoFrame.Before)
    (hs : ∀ f ∈ fs, f.Sendable p.maxPlaintext) (hlen : (slots p.maxPlaintext fs).length < 2 ^ 32) :
    (sentPackets lib p fs).Pairwise fun d e =>
      frameIdOf d ≤ frameIdOf e ∧ (sequenceOf d).toNat < (sequenceOf e).toNat := by
  rw [sentPackets, Packetizer.exec_frames hs, packets, List.pairwise_filterMap,
    List.pairwise_iff_getElem]
  intro i j hi hj hij d hd e he
  rw [List.length_mapIdx] at hi hj
  simp only [List.getElem_mapIdx] at hd he
  obtain ⟨hcd, hsd⟩ := Packetizer.sendSlot_carries (p := p.advance i) hp hd
  obtain ⟨hce, hse⟩ := Packetizer.sendSlot_carries (p := p.advance j) hp he
  have hseq : ∀ n < (slots p.maxPlaintext fs).length,
      ((p.advance n).packetSequence).toNat = n := fun n hn => by
    rw [Packetizer.advance, h₀, UInt32.zero_add, UInt32.toNat_ofNat', Nat.mod_eq_of_lt (by omega)]
  rw [hcd.frameIdOf, hce.frameIdOf, hsd, hse, hseq i hi, hseq j hj]
  exact ⟨List.pairwise_iff_getElem.mp (pairwise_slots _ hinc) i j hi hj hij, hij⟩

theorem schedule_sentPackets {p : Packetizer} (hp : Paired lib p.crypto rx)
    (h₀ : p.packetSequence = 0) {fs : List VideoFrame} (hinc : fs.Pairwise VideoFrame.Before)
    (hs : ∀ f ∈ fs, f.Sendable p.maxPlaintext) (hlen : (slots p.maxPlaintext fs).length < 2 ^ 32) :
    Schedule (sentPackets lib p fs) (sentPackets lib p fs) := by
  have hpair := pairwise_sentPackets hp h₀ hinc hs hlen
  refine ⟨fun _ hd => hd, fun _ hd => hd, fun pre d post he e hmem hlt => ?_,
    fun pre d post he _ e hmem => ?_⟩
  · rw [he] at hpair hmem
    refine (List.mem_append.mp hmem).resolve_right fun htail => ?_
    rcases List.mem_cons.mp htail with rfl | hpost
    · exact UInt32.lt_irrefl _ hlt
    · have := ((List.pairwise_cons.mp (List.pairwise_append.mp hpair).2.1).1 e hpost).1
      exact UInt32.lt_irrefl _ (UInt32.lt_of_lt_of_le hlt this)
  · rw [he] at hpair
    have := ((List.pairwise_append.mp hpair).2.2 e hmem d List.mem_cons_self).2
    omega

theorem schedule_of_pairwise {sent ds : List Bytes} (hmem : ∀ d, d ∈ ds ↔ d ∈ sent)
    (hframes : ds.Pairwise fun d e => frameIdOf d ≤ frameIdOf e)
    (hwindow : ∀ d ∈ sent, (sequenceOf d).toNat < 64) : Schedule sent ds := by
  refine ⟨fun d hd => (hmem d).mpr hd, fun d hd => (hmem d).mp hd,
    fun pre d post he e hsent hlt => ?_, fun pre d post he _ e hpre => ?_⟩
  · have hds := (hmem e).mpr hsent
    rw [he] at hframes hds
    refine (List.mem_append.mp hds).resolve_right fun htail => ?_
    rcases List.mem_cons.mp htail with rfl | hpost
    · exact UInt32.lt_irrefl _ hlt
    · have hle := (List.pairwise_cons.mp (List.pairwise_append.mp hframes).2.1).1 e hpost
      exact UInt32.lt_irrefl _ (UInt32.lt_of_lt_of_le hlt hle)
  · have hlt := hwindow e ((hmem e).mp (by simp [he, hpre]))
    omega

/-- Any packet may come again at the end. -/
theorem Schedule.append {sent ds : List Bytes} (h : Schedule sent ds) {again : List Bytes}
    (hagain : ∀ d ∈ again, d ∈ sent) : Schedule sent (ds ++ again) := by
  refine ⟨fun d hd => List.mem_append_left _ (h.complete d hd), fun d hd => ?_,
    fun pre d post he e hsent hlt => ?_, fun pre d post he hnew e hpre => ?_⟩
  · exact (List.mem_append.mp hd).elim (h.genuine d) (hagain d)
  · rcases List.append_eq_append_iff.mp he with ⟨more, rfl, -⟩ | ⟨more, hds, hmore⟩
    · exact List.mem_append_left _ (h.complete e hsent)
    · cases more with
      | nil =>
        rw [List.append_nil] at hds
        exact hds ▸ h.complete e hsent
      | cons c more =>
        obtain ⟨rfl, -⟩ := List.cons.inj hmore
        exact h.inOrder pre d more hds e hsent hlt
  · rcases List.append_eq_append_iff.mp he with ⟨more, rfl, htail⟩ | ⟨more, hds, hmore⟩
    · have hd : d ∈ again := by simp [htail]
      exact absurd (List.mem_append_left _ (h.complete d (hagain d hd))) hnew
    · cases more with
      | nil =>
        rw [List.append_nil] at hds
        have hd : d ∈ again := by
          rw [List.nil_append] at hmore
          rw [← hmore]
          exact List.mem_cons_self
        exact absurd (hds ▸ h.complete d (hagain d hd)) hnew
      | cons c more =>
        obtain ⟨rfl, -⟩ := List.cons.inj hmore
        exact h.window pre d more hds hnew e hpre

/-- A reassembler that is armed and has yet to see its first packet. -/
structure Clean (rx : Option SessionCrypto) (sessionId : UInt32) (r : FrameReassembler ω) :
    Prop where
  crypto : r.crypto = rx
  replayFilter : r.replayFilter = {}
  session : r.sessionLocked = true → r.expectedSessionId = sessionId
  waitingForKeyframe : r.waitingForKeyframe = true
  pendingFrames : r.pendingFrames = ∅

theorem Clean.synced {r : FrameReassembler ω} (h : Clean rx sessionId r) (hm : 0 < m)
    {fs : List VideoFrame} (hs : ∀ f ∈ fs, f.Sendable m) :
    Synced lib rx m sessionId fs ∅ r [] := by
  have hnone : ∀ f ∈ fs, ¬ Complete lib rx m sessionId ∅ f := by
    intro f hf hc
    obtain ⟨d, hd, -⟩ := hc 0 (Blocks.count_pos hm (List.length_pos_iff.mpr (hs f hf).nonempty))
    cases hd
  exact ⟨h.crypto, by simpa [h.replayFilter] using ReplayFilter.tracks_empty, h.session,
    ⟨fs, rfl, by simp, hnone⟩, fun _ => rfl, by simp [h.waitingForKeyframe],
    by simp [h.pendingFrames], by simp⟩

theorem Clean.framesOf_eq {r : FrameReassembler Bytes} (hr : Clean rx sessionId r)
    {tx : Option SessionCrypto} (hp : Paired lib tx rx)
    (hk : tx.isSome = true → lib.EncryptSucceeds) {fs : List VideoFrame}
    (hinc : fs.Pairwise VideoFrame.Before) (h₀ : ∀ f ∈ fs, f.frameId ≠ 0)
    (hkey : ∀ g, fs.head? = some g → g.isKeyframe = true)
    (hs : ∀ f ∈ fs, f.Sendable (Packetizer.maxPlaintext ⟨sessionId, 0, tx⟩))
    (hlen : (sentPackets lib ⟨sessionId, 0, tx⟩ fs).length < 2 ^ 32) {ds : List Bytes}
    (hds : Schedule (sentPackets lib ⟨sessionId, 0, tx⟩ fs) ds) :
    framesOf lib id r ds = fs := by
  have hm := Packetizer.maxPlaintext_pos ⟨sessionId, 0, tx⟩
  have hkeys := hp.keys hk
  have T := sentPackets_stream (p := ⟨sessionId, 0, tx⟩) hp hkeys hinc hs
    (by rwa [← length_sentPackets hkeys hs])
  generalize Packetizer.maxPlaintext ⟨sessionId, 0, tx⟩ = m at hm hs T
  have hsynced : Synced lib rx m sessionId fs {d | d ∈ ds}
      (Machine.exec (receive lib id) r ds).1 (framesOf lib id r ds) := by
    refine Machine.history_invariant (receive lib id) r ds
      (I := fun pre r calls => Synced lib rx m sessionId fs {d | d ∈ pre} r (emitted calls))
      ?_ fun pre d post he hsynced => ?_
    · simpa using hr.synced hm hs
    · have hpre : {e | e ∈ pre ++ [d]} = insert d {e | e ∈ pre} := by
        ext e; simp [or_comm]
      rw [hpre, emitted_append]
      exact hsynced.pushPacket T hm hs h₀ hkey hinc
        (fun e (hm : e ∈ pre) => hds.genuine e (by simp [he, hm])) (hds.next he)
  obtain ⟨rest, hfs, -, hrest⟩ := hsynced.emitted
  cases rest with
  | nil => rw [hfs, List.append_nil]
  | cons f rest =>
    refine absurd (fun i hi => ?_) (hrest f List.mem_cons_self)
    obtain ⟨d, hd, hc⟩ := T.covers f (by rw [hfs]; simp) i hi
    exact ⟨d, hds.complete d hd, hc⟩

/-- A new reassembler emits the frames sent, however the packets of each frame come and whatever
comes again. -/
theorem framesOf_schedule {tx : Option SessionCrypto} (hp : Paired lib tx rx)
    (hk : tx.isSome = true → lib.EncryptSucceeds) (sessionId : UInt32) {fs : List VideoFrame}
    (hinc : fs.Pairwise VideoFrame.Before) (h₀ : ∀ f ∈ fs, f.frameId ≠ 0)
    (hkey : ∀ g, fs.head? = some g → g.isKeyframe = true)
    (hs : ∀ f ∈ fs, f.Sendable (Packetizer.maxPlaintext ⟨sessionId, 0, tx⟩))
    (hlen : (sentPackets lib ⟨sessionId, 0, tx⟩ fs).length < 2 ^ 32) {ds : List Bytes}
    (hds : Schedule (sentPackets lib ⟨sessionId, 0, tx⟩ fs) ds) :
    framesOf lib id (setCrypto {} rx) ds = fs :=
  Clean.framesOf_eq ⟨rfl, rfl, by simp [setCrypto], rfl, rfl⟩ hp hk hinc h₀ hkey hs hlen hds

set_option maxRecDepth 100000 in
/-- The two fragments of the first frame come in the other order, the second one twice, and the
first one again after the second frame. -/
theorem framesOf_schedule_sample :
    let fs : List VideoFrame := [⟨1, 5, true, .replicate 1200 7⟩, ⟨2, 6, false, [4]⟩]
    let sent := sentPackets .sample ⟨7, 0, some .sample⟩ fs
    sent.length = 3 ∧ framesOf .sample id (setCrypto {} (some .sample))
      ((sent.take 2).reverse ++ sent.drop 1 ++ sent.take 1) = fs := by
  intro fs sent
  have hp : Paired .sample (some .sample) (some .sample) :=
    .keyed SessionCrypto.sample_mirrors Mbedtls.sample_decryptInvertsEncrypt
  have hinc : fs.Pairwise VideoFrame.Before :=
    List.pairwise_pair.mpr (show (1 : UInt32) < 2 by decide)
  have hs : ∀ f ∈ fs, f.Sendable (Packetizer.maxPlaintext ⟨7, 0, some .sample⟩) := by
    simp only [fs, List.forall_mem_cons, List.not_mem_nil, false_imp_iff, imp_true_iff, and_true]
    exact ⟨⟨by decide, by decide⟩, by decide, by decide⟩
  have hlen : sent.length = 3 := by rfl
  have hmem (d : Bytes) : d ∈ (sent.take 2).reverse ++ sent.drop 1 ↔ d ∈ sent := by
    have hsplit : d ∈ sent ↔ d ∈ sent.take 2 ∨ d ∈ sent.drop 2 := by
      rw [← List.mem_append, List.take_append_drop]
    rw [List.mem_append, List.mem_reverse]
    refine ⟨fun hd => hd.elim List.mem_of_mem_take List.mem_of_mem_drop, fun hd => ?_⟩
    exact (hsplit.mp hd).imp id fun hdrop => List.drop_subset_drop_left _ (by decide) hdrop
  have hframes : ((sent.take 2).reverse ++ sent.drop 1).Pairwise fun d e =>
      frameIdOf d ≤ frameIdOf e := by
    have hids : ((sent.take 2).reverse ++ sent.drop 1).map frameIdOf = [1, 1, 1, 2] := by rfl
    rw [← List.pairwise_map (f := frameIdOf) (R := (· ≤ ·)), hids]
    decide
  have hwindow : ∀ d ∈ sent, (sequenceOf d).toNat < 64 := by
    have hsequences : sent.map sequenceOf = [0, 1, 2] := by rfl
    rw [← List.forall_mem_map (f := sequenceOf) (P := (UInt32.toNat · < 64)), hsequences]
    simp only [List.forall_mem_cons]
    exact ⟨by decide, by decide, by decide, List.forall_mem_nil _⟩
  exact ⟨hlen, framesOf_schedule hp (fun _ => Mbedtls.sample_encryptSucceeds) 7 hinc (by decide)
    (by decide) hs (by decide) ((schedule_of_pairwise hmem hframes hwindow).append
      fun d hd => List.mem_of_mem_take hd)⟩

end VeyraCam
