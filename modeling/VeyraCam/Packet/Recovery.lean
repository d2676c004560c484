import VeyraCam.Packet.RoundTrip

/-! # Recovery

Whatever is lost, a receiver is in the stream again with the first keyframe
that arrives whole, and from then on has every frame that does: all of its
packets, each before any packet of a later frame and less than 64 numbers late.
-/

namespace VeyraCam

open FrameReassembler

variable {ω : Type*} {lib : Mbedtls} {rx : Option SessionCrypto} {m i : ℕ}
  {sessionId frameId : UInt32} {f : VideoFrame} {A : Set ℕ} {r r' : FrameReassembler ω}
  {header : PacketHeader} {payload d : Bytes} {origin : ω} {sent seen : Set Bytes}

/-- A receiver of a session that has taken the packets with the numbers of a set, and knows of no
frame after a given one. -/
structure Reaches (rx : Option SessionCrypto) (sessionId frameId : UInt32) (A : Set ℕ)
    (r : FrameReassembler ω) : Prop where
  settled : r.Settled
  crypto : r.crypto = rx
  session : r.sessionLocked = true → r.expectedSessionId = sessionId
  tracks : r.replayFilter.Tracks A
  pending_le : ∀ k ∈ r.pendingFrames.keys, k ≤ frameId
  last_le : r.waitingForKeyframe = false → r.lastEmittedFrameId ≤ frameId

/-- The receiver goes on without a change to one frame. -/
structure Spares (frameId : UInt32) (r r' : FrameReassembler ω) : Prop where
  find?_eq : r'.pendingFrames.find? frameId = r.pendingFrames.find? frameId
  opened : r.waitingForKeyframe = false → r'.waitingForKeyframe = false
  last : r'.waitingForKeyframe = false →
    r.waitingForKeyframe = false ∧ r'.lastEmittedFrameId = r.lastEmittedFrameId ∨
      r'.lastEmittedFrameId < frameId

theorem Spares.refl (frameId : UInt32) (r : FrameReassembler ω) : Spares frameId r r :=
  ⟨rfl, id, fun hw => .inl ⟨hw, rfl⟩⟩

theorem spares_admitted (r : FrameReassembler ω) (header : PacketHeader) :
    Spares frameId r (r.admitted header) :=
  ⟨by rw [admitted_pendingFrames], by rw [admitted_waitingForKeyframe]; exact id, by
    rw [admitted_waitingForKeyframe, admitted_lastEmittedFrameId]
    exact fun hw => .inl ⟨hw, rfl⟩⟩

theorem Spares.trans {r'' : FrameReassembler ω} (h : Spares frameId r r')
    (h' : Spares frameId r' r'') : Spares frameId r r'' := by
  refine ⟨h'.find?_eq.trans h.find?_eq, fun hw => h'.opened (h.opened hw), fun hw => ?_⟩
  rcases h'.last hw with ⟨hw', hl⟩ | hl
  · rw [hl]
    exact h.last hw'
  · exact .inr hl

theorem Reaches.admitted (h : Reaches rx sessionId frameId A r)
    (hsession : header.sessionId = sessionId) (ha : r.Admits header) :
    Reaches rx sessionId frameId (insert header.sequence.toNat A) (r.admitted header) := by
  constructor
  · exact h.settled.congr (admitted_pendingFrames r header)
  · rw [admitted_crypto, h.crypto]
  · intro _
    rw [admitted_expectedSessionId ha, hsession]
  · rw [admitted_replayFilter]
    exact (h.tracks.accept header.sequence).2 ha.1
  · rw [admitted_pendingFrames]
    exact h.pending_le
  · rw [admitted_waitingForKeyframe, admitted_lastEmittedFrameId]
    exact h.last_le

theorem keys_storeFragment_le (hk : ∀ k ∈ r.pendingFrames.keys, k ≤ frameId)
    (hle : header.frameId ≤ frameId) :
    ∀ k ∈ (r.storeFragment origin header payload).state.pendingFrames.keys, k ≤ frameId := by
  intro k hmem
  obtain ⟨e, he⟩ := Option.isSome_iff_exists.mp (OrderedMap.mem_keys_iff.mp hmem)
  rcases find?_storeFragment he with ⟨rfl, -⟩ | hold
  · exact hle
  · exact hk k (OrderedMap.mem_keys_iff.mpr (by rw [hold]; rfl))

theorem Reaches.storeFragment (h : Reaches rx sessionId frameId A r)
    (hle : header.frameId ≤ frameId) (origin : ω) (payload : Bytes) :
    Reaches rx sessionId frameId A (r.storeFragment origin header payload).state := by
  constructor
  · exact h.settled.storeFragment origin header payload
  · rw [storeFragment_crypto, h.crypto]
  · rw [storeFragment_sessionLocked, storeFragment_expectedSessionId]
    exact h.session
  · rw [storeFragment_replayFilter]
    exact h.tracks
  · exact keys_storeFragment_le h.pending_le hle
  · rcases r.storeFragment_cases origin header payload rfl with ⟨-, hs⟩ | ⟨-, hs⟩ <;> rw [hs]
    · intro _
      rw [h.settled.pendingWith_frameId]
      exact hle
    · exact h.last_le

theorem spares_storeFragment (h : r.Settled) (hlt : header.frameId < frameId) (origin : ω)
    (payload : Bytes) : Spares frameId r (r.storeFragment origin header payload).state := by
  have hne : frameId ≠ header.frameId := (UInt32.ne_of_lt hlt).symm
  have hname := h.pendingWith_frameId origin header payload
  rcases r.storeFragment_cases origin header payload rfl with ⟨-, hs⟩ | ⟨-, hs⟩ <;> rw [hs]
  · refine ⟨?_, fun _ => rfl, fun _ => .inr (by rwa [hname])⟩
    rw [OrderedMap.find?_eraseUpTo, hname, if_neg (UInt32.not_le.mpr hlt),
      OrderedMap.find?_insert_of_ne _ _ hne]
  · refine ⟨?_, id, fun hw => .inl ⟨hw, rfl⟩⟩
    have hmem : header.frameId ∈ (r.pendingFrames.insert header.frameId
        (r.pendingWith origin header payload)).keys := OrderedMap.mem_keys_insert.mpr (.inl rfl)
    dsimp only
    split_ifs
    · rw [OrderedMap.find?_eraseFirst_of_lt hmem hlt, OrderedMap.find?_insert_of_ne _ _ hne]
    · exact OrderedMap.find?_insert_of_ne _ _ hne

theorem Reaches.acceptPacket (h : Reaches rx sessionId frameId A r)
    (hsession : header.sessionId = sessionId) (hlt : header.frameId < frameId) (origin : ω)
    (payload : Bytes) :
    ∃ A' ⊆ insert header.sequence.toNat A, A ⊆ A' ∧
      Reaches rx sessionId frameId A' (r.acceptPacket origin header payload).state ∧
      Spares frameId r (r.acceptPacket origin header payload).state := by
  have hinsert : A ⊆ insert header.sequence.toNat A := Set.subset_insert _ _
  rcases r.acceptPacket_cases origin header payload with
    ⟨-, hs⟩ | ⟨-, hl, hne, -⟩ | ⟨ha, -, hs⟩ | ⟨ha, -, hs⟩
  · rw [hs]
    exact ⟨A, hinsert, subset_rfl, h, .refl frameId r⟩
  · exact absurd (hsession.trans (h.session hl).symm) hne
  · rw [hs]
    exact ⟨_, subset_rfl, hinsert, h.admitted hsession ha, spares_admitted r header⟩
  · rw [hs]
    have hadm := h.admitted hsession ha
    exact ⟨_, subset_rfl, hinsert, hadm.storeFragment (UInt32.le_of_lt hlt) origin payload,
      (spares_admitted r header).trans (spares_storeFragment hadm.settled hlt origin payload)⟩

/-- A receiver that has taken the packets of a frame among those seen, and misses some yet. -/
structure Coming (lib : Mbedtls) (rx : Option SessionCrypto) (m : ℕ) (sessionId : UInt32)
    (f : VideoFrame) (seen : Set Bytes) (r : FrameReassembler ω) : Prop where
  reached : ∃ A ⊆ (fun d => (sequenceOf d).toNat) '' seen,
    Reaches rx sessionId f.frameId A r ∧
      ∀ d ∈ seen, ∀ i, Carries lib rx m sessionId f i d → (sequenceOf d).toNat ∈ A
  last_lt : r.waitingForKeyframe = false → r.lastEmittedFrameId < f.frameId
  entry : ∀ e, r.pendingFrames.find? f.frameId = some e → Partial m f e ∧
    ∀ i < Blocks.count m f.data.length,
      (e.fragments.find? (.ofNat i)).isSome ↔ ∃ d ∈ seen, Carries lib rx m sessionId f i d
  stored : ∀ d ∈ seen, ∀ i, Carries lib rx m sessionId f i d →
    (r.pendingFrames.find? f.frameId).isSome

namespace Coming

theorem of_clean (hr : Clean rx sessionId r) (f : VideoFrame) :
    Coming lib rx m sessionId f ∅ r := by
  constructor
  · refine ⟨∅, Set.empty_subset _, ⟨settled_of_empty hr.pendingFrames, hr.crypto, hr.session, ?_,
      ?_, ?_⟩, by simp⟩
    · rw [hr.replayFilter]
      exact ReplayFilter.tracks_empty
    · intro k hk
      rw [hr.pendingFrames] at hk
      cases hk
    · simp [hr.waitingForKeyframe]
  · simp [hr.waitingForKeyframe]
  · simp [hr.pendingFrames]
  · simp

theorem earlier (h : Coming lib rx m sessionId f seen r) (hopen : openPacket lib rx d = some
      (header, payload)) (hsession : header.sessionId = sessionId)
    (hlt : header.frameId < f.frameId) (origin : ω) :
    Coming lib rx m sessionId f (insert d seen) (r.acceptPacket origin header payload).state := by
  obtain ⟨A, hsub, hreach, hown⟩ := h.reached
  obtain ⟨A', hinsert, hmono, hreach', hspare⟩ := hreach.acceptPacket hsession hlt origin payload
  have hseq : header.sequence = sequenceOf d := by rw [sequenceOf, ← openPacket_header hopen]
  have hother (i : ℕ) : ¬ Carries lib rx m sessionId f i d := by
    rintro ⟨header', payload', hopen', hd, -⟩
    obtain ⟨rfl, -⟩ := Prod.mk.inj (Option.some.inj (hopen.symm.trans hopen'))
    exact UInt32.ne_of_lt hlt hd.frameId
  have hsame : ∀ {d' : Bytes} {j : ℕ}, d' ∈ insert d seen → Carries lib rx m sessionId f j d' →
      d' ∈ seen := by
    rintro d' j (rfl | hd') hc
    · exact absurd hc (hother j)
    · exact hd'
  constructor
  · refine ⟨A', fun n hn => ?_, hreach', fun d' hd' j hc => hmono (hown d' (hsame hd' hc) j hc)⟩
    rcases hinsert hn with rfl | hn
    · exact ⟨d, .inl rfl, by rw [hseq]⟩
    · exact Set.image_mono (Set.subset_insert _ _) (hsub hn)
  · intro hw
    rcases hspare.last hw with ⟨hw', hl⟩ | hl
    · rw [hl]
      exact h.last_lt hw'
    · exact hl
  · intro e he
    rw [hspare.find?_eq] at he
    refine ⟨(h.entry e he).1, fun j hj => ((h.entry e he).2 j hj).trans ?_⟩
    constructor
    · rintro ⟨d', hd', hc⟩
      exact ⟨d', .inr hd', hc⟩
    · rintro ⟨d', hd', hc⟩
      exact ⟨d', hsame hd' hc, hc⟩
  · intro d' hd' j hc
    rw [hspare.find?_eq]
    exact h.stored d' (hsame hd' hc) j hc

theorem again (h : Coming lib rx m sessionId f seen r) (hd : Carries lib rx m sessionId f i d)
    (hold : d ∈ seen) (origin : ω) : r.pushPacket lib origin d = ⟨false, r, []⟩ := by
  obtain ⟨A, -, hreach, hown⟩ := h.reached
  obtain ⟨header, payload, hopen, -⟩ := id hd
  have hseq : header.sequence = sequenceOf d := by rw [sequenceOf, ← openPacket_header hopen]
  rw [pushPacket_of_some (by rw [hreach.crypto]; exact hopen), acceptPacket_of_refused]
  rw [Bool.eq_false_iff, Ne, (hreach.tracks.accept header.sequence).1, hseq]
  exact fun hadm => hadm.1 (hown d hold i hd)

theorem admits (h : Coming lib rx m sessionId f seen r)
    (hseq : header.sequence = sequenceOf d) (hsession : header.sessionId = sessionId)
    (hnew : ∀ e ∈ seen, sequenceOf e ≠ sequenceOf d)
    (hwindow : ∀ e ∈ seen, (sequenceOf e).toNat < (sequenceOf d).toNat + 64) :
    r.Admits header := by
  obtain ⟨A, hsub, hreach, -⟩ := h.reached
  refine ⟨?_, fun hl => by rw [hsession, hreach.session hl]⟩
  rw [(hreach.tracks.accept header.sequence).1, hseq]
  constructor
  · intro hmem
    obtain ⟨e, he, heq⟩ := hsub hmem
    exact hnew e he (UInt32.toNat_inj.mp heq)
  · rintro _ ha
    obtain ⟨e, he, rfl⟩ := hsub ha
    exact hwindow e he

theorem wants (h : Coming lib rx m sessionId f seen r) (hd : FragmentOf m f i header payload)
    (hgate : f.isKeyframe = true ∨ r.waitingForKeyframe = false) : r.Wants header := by
  unfold Wants
  split_ifs with hwait
  · rw [hd.isKeyframe]
    exact hgate.resolve_right (by simp [hwait])
  · have hlt := h.last_lt (by simpa using hwait)
    simp [isStale, hd.frameId, UInt32.not_le.mpr hlt]

theorem pendingWith (h : Coming lib rx m sessionId f seen r) (hf : f.Sendable m)
    (h₀ : f.frameId ≠ 0) (hi : i < Blocks.count m f.data.length)
    (hc : Carries lib rx m sessionId f i d) (hd : FragmentOf m f i header payload) (origin : ω) :
    Partial m f (r.pendingWith origin header payload) ∧
      ∀ j < Blocks.count m f.data.length,
        ((r.pendingWith origin header payload).fragments.find? (.ofNat j)).isSome ↔
          ∃ d' ∈ insert d seen, Carries lib rx m sessionId f j d' := by
  have hle := hf.count_le
  obtain ⟨hpart, hfind⟩ := Partial.pendingWith origin hf h₀ hd hi fun e he => (h.entry e he).1
  refine ⟨hpart, fun j hj => (hfind j hj).trans ⟨?_, ?_⟩⟩
  · rintro (rfl | ⟨e, he, hsome⟩)
    · exact ⟨d, .inl rfl, hc⟩
    · obtain ⟨d', hd', hc'⟩ := ((h.entry e he).2 j hj).mp hsome
      exact ⟨d', .inr hd', hc'⟩
  · rintro ⟨d', rfl | hd', hc'⟩
    · exact .inl (hc'.index hc (by omega) (by omega))
    · obtain ⟨e, he⟩ := Option.isSome_iff_exists.mp (h.stored d' hd' j hc')
      exact .inr ⟨e, he, ((h.entry e he).2 j hj).mpr ⟨d', hd', hc'⟩⟩

theorem find?_trimmed (hk : ∀ k ∈ r.pendingFrames.keys, k ≤ f.frameId) (e : PendingFrame ω) :
    (if 16 < (r.pendingFrames.insert f.frameId e).size then
        (r.pendingFrames.insert f.frameId e).eraseFirst
      else r.pendingFrames.insert f.frameId e).find? f.frameId = some e := by
  split_ifs with hsize
  · have hother : ∃ k ∈ (r.pendingFrames.insert f.frameId e).keys, k ≠ f.frameId := by
      by_contra hall
      push Not at hall
      have := OrderedMap.size_le_one hall
      omega
    obtain ⟨k, hmem, hne⟩ := hother
    have hold := (OrderedMap.mem_keys_insert.mp hmem).resolve_left hne
    rw [OrderedMap.find?_eraseFirst_of_lt hmem (UInt32.lt_of_le_of_ne (hk k hold) hne),
      OrderedMap.find?_insert_self]
  · exact OrderedMap.find?_insert_self ..

/-- A new packet of the frame: the frame is emitted with its last one. -/
theorem own (h : Coming lib rx m sessionId f seen r) (hm : 0 < m) (hf : f.Sendable m)
    (h₀ : f.frameId ≠ 0) (hi : i < Blocks.count m f.data.length)
    (hc : Carries lib rx m sessionId f i d)
    (hgate : f.isKeyframe = true ∨ r.waitingForKeyframe = false)
    (hnew : ∀ e ∈ seen, sequenceOf e ≠ sequenceOf d)
    (hwindow : ∀ e ∈ seen, (sequenceOf e).toNat < (sequenceOf d).toNat + 64) (origin : ω) :
    Complete lib rx m sessionId (insert d seen) f ∧
        emitted (r.pushPacket lib origin d).calls = [f] ∨
      ¬ Complete lib rx m sessionId (insert d seen) f ∧
        Coming lib rx m sessionId f (insert d seen) (r.pushPacket lib origin d).state := by
  obtain ⟨A, hsub, hreach, hown⟩ := h.reached
  obtain ⟨header, payload, hopen, hd, hsession⟩ := id hc
  have hseq : header.sequence = sequenceOf d := by rw [sequenceOf, ← openPacket_header hopen]
  have hadm := h.admits hseq hsession hnew hwindow
  obtain ⟨hpart, hfind⟩ := h.pendingWith hf h₀ hi hc hd origin
  have hreach' := (hreach.admitted hsession hadm).storeFragment
    (UInt32.le_of_eq hd.frameId) origin payload
  rw [pendingWith_admitted] at hpart hfind
  have hcomplete := (hpart.isComplete_iff hm hf).trans (forall₂_congr hfind)
  rw [pushPacket_of_some (by rw [hreach.crypto]; exact hopen), acceptPacket_of_admits hadm,
    if_pos (h.wants hd hgate)]
  rcases (r.admitted header).storeFragment_cases origin header payload rfl with
    ⟨hdone, hres⟩ | ⟨hdone, hres⟩
  · refine .inl ⟨hcomplete.mp hdone, ?_⟩
    rw [hres, emitted_frameReady, hpart.assemble hm hf hdone]
  · refine .inr ⟨fun hall => by simp [hcomplete.mpr hall] at hdone, ?_⟩
    have hfound :
        ((r.admitted header).storeFragment origin header payload).state.pendingFrames.find?
          f.frameId = some ((r.admitted header).pendingWith origin header payload) := by
      rw [hres]
      dsimp only
      rw [hd.frameId]
      exact find?_trimmed (by rw [admitted_pendingFrames]; exact hreach.pending_le) _
    constructor
    · refine ⟨_, fun n hn => ?_, hreach', fun d' hd' j hc' => ?_⟩
      · rcases hn with rfl | hn
        · exact ⟨d, .inl rfl, by rw [hseq]⟩
        · exact Set.image_mono (Set.subset_insert _ _) (hsub hn)
      · rcases hd' with rfl | hd'
        · exact .inl (by rw [hseq])
        · exact .inr (hown d' hd' j hc')
    · rw [hres]
      simpa using h.last_lt
    · intro e he
      obtain rfl := Option.some.inj (hfound.symm.trans he)
      exact ⟨hpart, hfind⟩
    · intro _ _ _ _
      rw [hfound]
      rfl

end Coming

/-- A receiver past the keyframe gate stays so, and one that has emitted a frame is past it. -/
theorem pushPacket_waiting (lib : Mbedtls) (r : FrameReassembler ω) (origin : ω) (d : Bytes)
    (hw : (r.pushPacket lib origin d).state.waitingForKeyframe = true) :
    r.waitingForKeyframe = true ∧ emitted (r.pushPacket lib origin d).calls = [] := by
  unfold FrameReassembler.pushPacket at hw ⊢
  split
  · next hopen =>
    rw [hopen] at hw
    exact ⟨hw, rfl⟩
  · next header payload hopen =>
    rw [hopen] at hw
    dsimp only at hw ⊢
    rcases r.acceptPacket_cases origin header payload with
      ⟨-, hs⟩ | ⟨-, -, -, hs⟩ | ⟨-, -, hs⟩ | ⟨-, -, hs⟩ <;> rw [hs] at hw ⊢
    · exact ⟨hw, rfl⟩
    · exact ⟨hw, rfl⟩
    · rw [admitted_waitingForKeyframe] at hw
      exact ⟨hw, emitted_missing header.frameId⟩
    · rcases (r.admitted header).storeFragment_cases origin header payload rfl with
        ⟨-, hres⟩ | ⟨-, hres⟩ <;> rw [hres] at hw ⊢
      · cases hw
      · exact ⟨by simpa using hw, rfl⟩

theorem framesOf_eq_nil_of_waiting {mark : Bytes → ω} {ds : List Bytes}
    (hw : (Machine.exec (receive lib mark) r ds).1.waitingForKeyframe = true) :
    framesOf lib mark r ds = [] := by
  refine Machine.history_invariant (receive lib mark) r ds
    (I := fun _ r calls => r.waitingForKeyframe = true → emitted calls = []) (fun _ => rfl) ?_ hw
  intro pre d post _ ih hw
  obtain ⟨hw', hnil⟩ := pushPacket_waiting lib _ (mark d) d hw
  rw [emitted_append, ih hw', List.nil_append]
  exact hnil

def arrived (sent ds : List Bytes) : Set Bytes := {d | d ∈ ds ∧ d ∈ sent}

theorem arrived_concat_of_mem {sent ds : List Bytes} (hd : d ∈ sent) :
    arrived sent (ds ++ [d]) = insert d (arrived sent ds) := by
  ext e
  simp only [arrived, List.mem_append, List.mem_singleton, Set.mem_ofPred_eq, Set.mem_insert_iff]
  constructor
  · rintro ⟨hds | rfl, he⟩
    · exact .inr ⟨hds, he⟩
    · exact .inl rfl
  · rintro (rfl | ⟨hds, he⟩)
    · exact ⟨.inr rfl, hd⟩
    · exact ⟨.inl hds, he⟩

theorem arrived_concat_of_not_mem {sent ds : List Bytes} (hd : d ∉ sent) :
    arrived sent (ds ++ [d]) = arrived sent ds := by
  ext e
  simp only [arrived, List.mem_append, List.mem_singleton, Set.mem_ofPred_eq]
  constructor
  · rintro ⟨hds | rfl, he⟩
    · exact ⟨hds, he⟩
    · exact absurd he hd
  · exact fun ⟨hds, he⟩ => ⟨.inl hds, he⟩

/-- Each packet of a frame comes, when it first does, before all packets of later frames and
less than 64 numbers late. -/
def InTime (sent ds : List Bytes) (frameId : UInt32) : Prop :=
  ∀ pre d post, ds = pre ++ d :: post → d ∈ sent → frameIdOf d = frameId → d ∉ pre →
    ∀ e ∈ pre, e ∈ sent →
      frameIdOf e ≤ frameId ∧ (sequenceOf e).toNat < (sequenceOf d).toNat + 64

/-- All packets of a frame come in time. -/
structure Whole (sent ds : List Bytes) (frameId : UInt32) : Prop where
  arrives : ∀ d ∈ sent, frameIdOf d = frameId → d ∈ ds
  inTime : InTime sent ds frameId

/-- A receiver and what it has emitted, as far as one frame of a stream is concerned. -/
structure Expecting (lib : Mbedtls) (rx : Option SessionCrypto) (m : ℕ) (sessionId : UInt32)
    (f : VideoFrame) (seen : Set Bytes) (r : FrameReassembler ω) (out : List VideoFrame) :
    Prop where
  crypto : r.crypto = rx
  emitted : Complete lib rx m sessionId seen f → f ∈ out
  coming : (∀ e ∈ seen, frameIdOf e ≤ f.frameId) → ¬ Complete lib rx m sessionId seen f →
    Coming lib rx m sessionId f seen r

namespace Expecting

variable {fs out : List VideoFrame} {sent pre : List Bytes}

theorem pushPacket (h : Expecting lib rx m sessionId f (arrived sent pre) r out)
    (T : Stream lib rx m sessionId fs {d | d ∈ sent}) (hm : 0 < m)
    (hs : ∀ f ∈ fs, f.Sendable m) (h₀ : ∀ f ∈ fs, f.frameId ≠ 0)
    (hinc : fs.Pairwise VideoFrame.Before) (hf : f ∈ fs) (hd : d ∈ sent)
    (htime : InTime sent (pre ++ [d]) f.frameId)
    (hgate : frameIdOf d = f.frameId → f.isKeyframe = true ∨ r.waitingForKeyframe = false)
    (origin : ω) :
    Expecting lib rx m sessionId f (insert d (arrived sent pre)) (r.pushPacket lib origin d).state
      (out ++ VeyraCam.emitted (r.pushPacket lib origin d).calls) := by
  obtain ⟨g, hg, i, hi, hc⟩ := T.carries d hd
  have hcrypto : (r.pushPacket lib origin d).state.crypto = rx :=
    (pushPacket_crypto ..).trans h.crypto
  have hincomplete (hn : ¬ Complete lib rx m sessionId (insert d (arrived sent pre)) f) :
      ¬ Complete lib rx m sessionId (arrived sent pre) f :=
    fun hc => hn (hc.mono (Set.subset_insert _ _))
  by_cases hid : frameIdOf d = f.frameId
  · -- a packet of the frame itself, which is refused or stored
    obtain rfl := eq_of_frameId hinc hg hf (hc.frameIdOf.symm.trans hid)
    by_cases hold : d ∈ pre
    · rw [Set.insert_eq_of_mem (show d ∈ arrived sent pre from ⟨hold, hd⟩)]
      refine ⟨hcrypto, fun hall => List.mem_append_left _ (h.emitted hall), fun hle hn => ?_⟩
      have hcoming := h.coming hle hn
      rwa [hcoming.again hc ⟨hold, hd⟩]
    · have hbefore := htime pre d [] rfl hd hid hold
      have hnot := not_complete T (fun e he => he.2) hf hi hd hc
        (show d ∉ arrived sent pre from fun he => hold he.1)
      have hcoming := h.coming (fun e he => (hbefore e he.1 he.2).1) hnot
      have hnew : ∀ e ∈ arrived sent pre, sequenceOf e ≠ sequenceOf d := fun e he heq => by
        obtain rfl := T.sequence_inj he.2 hd heq
        exact hold he.1
      rcases hcoming.own hm (hs g hf) (h₀ g hf) hi hc (hgate hid) hnew
        (fun e he => (hbefore e he.1 he.2).2) origin with ⟨hall, hcalls⟩ | ⟨hn, hnext⟩
      · exact ⟨hcrypto, fun _ => by simp [hcalls], fun _ hn => absurd hall hn⟩
      · exact ⟨hcrypto, fun hall => absurd hall hn, fun _ _ => hnext⟩
  · have hne : f.frameId ≠ g.frameId := fun he => hid (hc.frameIdOf.trans he.symm)
    refine ⟨hcrypto, fun hall => List.mem_append_left _ (h.emitted (hall.of_insert hc hne)),
      fun hle hn => ?_⟩
    have hcoming := h.coming (fun e he => hle e (.inr he)) (hincomplete hn)
    obtain ⟨header, payload, hopen, hdf, hsession⟩ := hc
    have hlt : header.frameId < f.frameId := by
      have := hle d (.inl rfl)
      rw [frameIdOf, ← openPacket_header hopen] at this hid
      exact UInt32.lt_of_le_of_ne this hid
    rw [pushPacket_of_some (by rw [h.crypto]; exact hopen)]
    exact hcoming.earlier hopen hsession hlt origin

/-- Over a run of packets of the stream and others that do not open, a frame in time that
finds the gate open is emitted with its last packet. -/
theorem exec {r : FrameReassembler ω} (hr : Clean rx sessionId r) (mark : Bytes → ω)
    (T : Stream lib rx m sessionId fs {d | d ∈ sent}) (hm : 0 < m)
    (hs : ∀ f ∈ fs, f.Sendable m) (h₀ : ∀ f ∈ fs, f.frameId ≠ 0)
    (hinc : fs.Pairwise VideoFrame.Before) (hf : f ∈ fs) {ds : List Bytes}
    (hds : ∀ d ∈ ds, d ∈ sent ∨ openPacket lib rx d = none)
    (htime : InTime sent ds f.frameId)
    (hgate : ∀ pre d post, ds = pre ++ d :: post → d ∈ sent → frameIdOf d = f.frameId →
      f.isKeyframe = true ∨
        (Machine.exec (receive lib mark) r pre).1.waitingForKeyframe = false) :
    Expecting lib rx m sessionId f (arrived sent ds) (Machine.exec (receive lib mark) r ds).1
      (framesOf lib mark r ds) := by
  refine Machine.history_invariant (receive lib mark) r ds
    (I := fun pre r calls => Expecting lib rx m sessionId f (arrived sent pre) r
      (VeyraCam.emitted calls)) ?_ fun pre d post he ih => ?_
  · have hnone : arrived sent [] = ∅ := by
      ext e
      simp [arrived]
    rw [hnone]
    refine ⟨hr.crypto, fun hall => ?_, fun _ _ => .of_clean hr f⟩
    obtain ⟨d, hd, -⟩ := hall 0
      (Blocks.count_pos hm (List.length_pos_iff.mpr (hs f hf).nonempty))
    cases hd
  · rw [emitted_append]
    by_cases hd : d ∈ sent
    · rw [arrived_concat_of_mem hd]
      refine ih.pushPacket T hm hs h₀ hinc hf hd ?_ (hgate pre d post he hd) (mark d)
      intro pre' d' post' he'
      refine htime pre' d' (post' ++ post) ?_
      rw [he, ← List.singleton_append, ← List.append_assoc, he', List.append_assoc,
        List.cons_append]
    · have hnone := (hds d (by simp [he])).resolve_left hd
      have hsame := pushPacket_of_none (r := (Machine.exec (receive lib mark) r pre).1)
        (by rw [ih.crypto]; exact hnone) (mark d)
      simp only [receive, hsame, arrived_concat_of_not_mem hd, VeyraCam.emitted_nil,
        List.append_nil]
      exact ih

end Expecting

/-- A packet of a later frame comes after all packets of a frame that arrives whole. -/
theorem Whole.complete_of_later {fs : List VideoFrame} {sent pre post : List Bytes}
    (T : Stream lib rx m sessionId fs {d | d ∈ sent}) (hf : f ∈ fs)
    (h : Whole sent (pre ++ d :: post) f.frameId) (hd : d ∈ sent)
    (hlt : f.frameId < frameIdOf d) : Complete lib rx m sessionId (arrived sent pre) f := by
  intro i hi
  obtain ⟨e, he, hc⟩ := T.covers f hf i hi
  refine ⟨e, ⟨by_contra fun hnot => ?_, he⟩, hc⟩
  -- otherwise its first arrival comes after the later packet
  have hmem : e ∈ d :: post :=
    (List.mem_append.mp (h.arrives e he hc.frameIdOf)).resolve_left hnot
  obtain ⟨as, bs, hsplit, hfirst⟩ := List.eq_append_cons_of_mem hmem
  have hbefore : d ∈ as := by
    cases as with
    | nil =>
      obtain ⟨rfl, -⟩ := List.cons.inj hsplit
      rw [hc.frameIdOf] at hlt
      exact absurd hlt (UInt32.lt_irrefl _)
    | cons a as =>
      obtain ⟨rfl, -⟩ := List.cons.inj hsplit
      exact List.mem_cons_self
  have hle := (h.inTime (pre ++ as) e bs (by rw [hsplit, List.append_assoc]) he hc.frameIdOf
    (by simp [hnot, hfirst]) d (List.mem_append_right _ hbefore) hd).1
  exact absurd hlt (UInt32.not_lt.mpr hle)

theorem InTime.of_append {sent pre post : List Bytes} (h : InTime sent (pre ++ post) frameId) :
    InTime sent pre frameId := by
  intro pre' d post' he
  exact h pre' d (post' ++ post) (by rw [he, List.append_assoc, List.cons_append])

/-- Once a keyframe has arrived whole, every frame from it on that arrives whole is emitted,
whatever is lost of the others and whatever arrives besides that does not open. -/
theorem mem_framesOf_of_whole {tx : Option SessionCrypto} (hp : Paired lib tx rx)
    (hk : tx.isSome = true → lib.EncryptSucceeds) (sessionId : UInt32) (mark : Bytes → ω)
    {fs : List VideoFrame} (hinc : fs.Pairwise VideoFrame.Before)
    (h₀ : ∀ f ∈ fs, f.frameId ≠ 0)
    (hs : ∀ f ∈ fs, f.Sendable (Packetizer.maxPlaintext ⟨sessionId, 0, tx⟩))
    (hlen : (sentPackets lib ⟨sessionId, 0, tx⟩ fs).length < 2 ^ 32) {ds : List Bytes}
    (hds : ∀ d ∈ ds, d ∈ sentPackets lib ⟨sessionId, 0, tx⟩ fs ∨ openPacket lib rx d = none)
    {key f : VideoFrame} (hkeymem : key ∈ fs) (hkey : key.isKeyframe = true)
    (hkeywhole : Whole (sentPackets lib ⟨sessionId, 0, tx⟩ fs) ds key.frameId)
    (hf : f ∈ fs) (hle : key.frameId ≤ f.frameId)
    (hwhole : Whole (sentPackets lib ⟨sessionId, 0, tx⟩ fs) ds f.frameId) :
    f ∈ framesOf lib mark (setCrypto {} rx) ds := by
  have hm := Packetizer.maxPlaintext_pos ⟨sessionId, 0, tx⟩
  have hkeys := hp.keys hk
  have T := sentPackets_stream (p := ⟨sessionId, 0, tx⟩) hp hkeys hinc hs
    (by rwa [← length_sentPackets hkeys hs])
  generalize Packetizer.maxPlaintext ⟨sessionId, 0, tx⟩ = m at hm hs T
  generalize sentPackets lib ⟨sessionId, 0, tx⟩ fs = sent at T hds hkeywhole hwhole
  have hr : Clean (ω := ω) rx sessionId (setCrypto {} rx) :=
    ⟨rfl, rfl, by simp [setCrypto], rfl, rfl⟩
  -- a packet of a later frame finds the gate opened by the keyframe
  have hopened : ∀ pre d post, ds = pre ++ d :: post → d ∈ sent → key.frameId < frameIdOf d →
      (Machine.exec (receive lib mark) (setCrypto {} rx) pre).1.waitingForKeyframe = false := by
    rintro pre d post rfl hd hlt
    have hcomplete := hkeywhole.complete_of_later T hkeymem hd hlt
    have hexp := Expecting.exec hr mark T hm hs h₀ hinc hkeymem
      (fun e he => hds e (List.mem_append_left _ he)) hkeywhole.inTime.of_append
      fun _ _ _ _ _ _ => .inl hkey
    by_contra hwait
    have hnil := framesOf_eq_nil_of_waiting (by simpa using hwait)
    have hmem := hexp.emitted hcomplete
    rw [hnil] at hmem
    cases hmem
  have hexp := Expecting.exec hr mark T hm hs h₀ hinc hf hds hwhole.inTime
    fun pre d post he hd hid => by
      rcases UInt32.lt_or_eq_of_le hle with hlt | heq
      · exact .inr (hopened pre d post he hd (by rwa [hid]))
      · exact .inl (by rwa [← eq_of_frameId hinc hkeymem hf heq])
  refine hexp.emitted fun i hi => ?_
  obtain ⟨d, hd, hc⟩ := T.covers f hf i hi
  exact ⟨d, ⟨hwhole.arrives d hd hc.frameIdOf, hd⟩, hc⟩

/-- Packets in the order of sending are in time, whatever is lost of them. -/
theorem inTime_of_pairwise {sent ds : List Bytes} (h : ds.Pairwise fun d e => d ∈ sent →
      e ∈ sent → frameIdOf d ≤ frameIdOf e ∧ (sequenceOf d).toNat < (sequenceOf e).toNat + 64)
    (frameId : UInt32) : InTime sent ds frameId := by
  rintro pre d post rfl hd rfl - e he hmem
  exact (List.pairwise_append.mp h).2.2 e he d List.mem_cons_self hmem hd

set_option maxRecDepth 100000 in
theorem mem_framesOf_of_whole_sample :
    let fs : List VideoFrame := [⟨1, 5, true, [1, 2, 3]⟩, ⟨2, 6, false, [4]⟩, ⟨3, 7, true, [5]⟩,
      ⟨4, 8, false, [6]⟩]
    let ds : List Bytes := [9] :: (sentPackets .sample ⟨7, 0, some .sample⟩ fs).tail
    ⟨4, 8, false, [6]⟩ ∈ framesOf .sample id (setCrypto {} (some .sample)) ds ∧
      ⟨2, 6, false, [4]⟩ ∉ framesOf .sample id (setCrypto {} (some .sample)) ds := by
  intro fs ds
  have hp : Paired .sample (some .sample) (some .sample) :=
    .keyed SessionCrypto.sample_mirrors Mbedtls.sample_decryptInvertsEncrypt
  have hinc : fs.Pairwise VideoFrame.Before := by
    change fs.Pairwise fun f g => f.frameId < g.frameId
    decide
  have hs : ∀ f ∈ fs, f.Sendable (Packetizer.maxPlaintext ⟨7, 0, some .sample⟩) := by
    simp only [fs, List.forall_mem_cons, List.not_mem_nil, false_imp_iff, imp_true_iff, and_true]
    exact ⟨⟨by decide, by decide⟩, ⟨by decide, by decide⟩, ⟨by decide, by decide⟩, by decide,
      by decide⟩
  have hwhole (k : UInt32) (hk : ∀ d ∈ sentPackets .sample ⟨7, 0, some .sample⟩ fs,
      frameIdOf d = k → d ∈ ds) : Whole (sentPackets .sample ⟨7, 0, some .sample⟩ fs) ds k :=
    ⟨hk, inTime_of_pairwise (by decide) k⟩
  have hkey : (⟨3, 7, true, [5]⟩ : VideoFrame) ∈ fs := by decide
  refine ⟨mem_framesOf_of_whole hp (fun _ => Mbedtls.sample_encryptSucceeds) 7 id hinc (by decide)
    hs (by decide) (by decide) hkey rfl (hwhole 3 (by decide)) (by decide) (by decide)
    (hwhole 4 (by decide)), by decide⟩

end VeyraCam
