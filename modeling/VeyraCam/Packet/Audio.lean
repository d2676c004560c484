import VeyraCam.Packet.Reception

/-! # Audio on the video path

`PushPacket` puts audio packets through the video path: they share the replay
window, the staleness check and the pending frames with the video packets. The
frames emitted are those of the video packets alone when each audio packet is
dropped on the way or finds its place in the pending frames taken, and when no
video packet has fallen out of the window because of one.
-/

namespace VeyraCam

open FrameReassembler

variable {ω : Type*} {lib : Mbedtls} {header : PacketHeader} {payload : Bytes}

def isAudio (packetData : Bytes) : Bool := (PacketHeader.ofBytes packetData).streamId = 1

/-- A reassembler with the sequence numbers its replay filter has accepted, from either stream. -/
structure Listener where
  reassembler : FrameReassembler Bytes := {}
  video : List ℕ := []
  audio : List ℕ := []

namespace Listener

variable (lib)

/-- Push one packet and note its sequence number if it gets past the replay filter. -/
def listen (s : Listener) (packetData : Bytes) : Listener × List (Callback Bytes) :=
  let (reassembler, calls) := receive lib id s.reassembler packetData
  let sequence := (PacketHeader.ofBytes packetData).sequence
  let heard := (openPacket lib s.reassembler.crypto packetData).isSome &&
    (s.reassembler.replayFilter.accept sequence).1
  ({ reassembler
     video := if heard && !isAudio packetData then sequence.toNat :: s.video else s.video
     audio := if heard && isAudio packetData then sequence.toNat :: s.audio else s.audio }, calls)

/-- An audio packet that gets as far as the pending frames finds an entry there that holds a
fragment under its index. -/
def Absorbed (r : FrameReassembler ω) (header : PacketHeader) : Prop :=
  r.Admits header → r.Wants header → ∃ e ∈ r.pendingFrames.find? header.frameId,
    e.frameId ≠ 0 ∧ (e.fragments.find? header.fragmentIndex).isSome = true

/-- A video packet that the window would take were it not for the audio packets is not one
they have moved it past. -/
def InWindow (s : Listener) (sequence : ℕ) : Prop :=
  (∃ v ∈ s.video, v = sequence ∨ sequence + 64 ≤ v) ∨
    ∀ a ∈ s.audio, a ≠ sequence ∧ a < sequence + 64

instance (r : FrameReassembler ω) (header : PacketHeader) : Decidable (Absorbed r header) :=
  inferInstanceAs (Decidable (_ → _ → ∃ e ∈ _, _))

instance (s : Listener) (sequence : ℕ) : Decidable (s.InWindow sequence) :=
  inferInstanceAs (Decidable ((∃ v ∈ s.video, _) ∨ ∀ a ∈ s.audio, _))

def Undisturbed (s : Listener) (packetData : Bytes) : Prop :=
  match openPacket lib s.reassembler.crypto packetData with
  | none => True
  | some (header, _) =>
    if isAudio packetData then Absorbed s.reassembler header
    else s.InWindow header.sequence.toNat

instance (s : Listener) (packetData : Bytes) : Decidable (Undisturbed lib s packetData) := by
  unfold Undisturbed; split <;> infer_instance

end Listener

namespace FrameReassembler

variable {r : FrameReassembler ω}

theorem Settled.storeFragment_of_isSome (h : r.Settled) {e : PendingFrame ω}
    (he : r.pendingFrames.find? header.frameId = some e) (h₀ : e.frameId ≠ 0)
    (hf : (e.fragments.find? header.fragmentIndex).isSome = true) (origin : ω) :
    r.storeFragment origin header payload = ⟨true, r, []⟩ := by
  have hwith : r.pendingWith origin header payload = e := by
    rw [pendingWith, he, Option.getD_some, PendingFrame.start, if_neg h₀,
      PendingFrame.addFragment, if_neg]
    rw [Option.isNone_iff_eq_none]
    exact Option.isSome_iff_ne_none.mp hf
  have hsize : ¬ 16 < r.pendingFrames.size := by have := h.size_le; omega
  rcases r.storeFragment_cases origin header payload hwith.symm with ⟨hc, -⟩ | ⟨-, hs⟩
  · rw [h.incomplete _ e he] at hc; cases hc
  · rw [hs, OrderedMap.insert_of_find? he, if_neg hsize]

end FrameReassembler

namespace Listener

/-- A listener to both streams beside a reassembler that gets the video packets only. -/
structure Beside (sessionId : UInt32) (s : Listener) (r : FrameReassembler Bytes) : Prop where
  alike : s.reassembler.Alike r
  settled : s.reassembler.Settled
  session : s.reassembler.sessionLocked = true → s.reassembler.expectedSessionId = sessionId
  session' : r.sessionLocked = true → r.expectedSessionId = sessionId
  filter : s.reassembler.replayFilter.Tracks {n | n ∈ s.video ∨ n ∈ s.audio}
  filter' : r.replayFilter.Tracks {n | n ∈ s.video}

variable {sessionId : UInt32} {s : Listener} {r : FrameReassembler Bytes} {d : Bytes}

theorem listen_of_none (h : openPacket lib s.reassembler.crypto d = none) :
    listen lib s d = (s, []) := by
  simp [listen, receive, pushPacket_of_none h, h]

theorem listen_of_refused (h : openPacket lib s.reassembler.crypto d = some (header, payload))
    (hf : (s.reassembler.replayFilter.accept header.sequence).1 = false) :
    listen lib s d = (s, []) := by
  simp [listen, receive, pushPacket_of_some h, h, acceptPacket_of_refused hf,
    ← openPacket_header h, hf]

theorem listen_of_accepted (h : openPacket lib s.reassembler.crypto d = some (header, payload))
    (hf : (s.reassembler.replayFilter.accept header.sequence).1 = true) :
    listen lib s d =
      ({ reassembler := (s.reassembler.acceptPacket d header payload).state
         video := if isAudio d then s.video else header.sequence.toNat :: s.video
         audio := if isAudio d then header.sequence.toNat :: s.audio else s.audio },
        (s.reassembler.acceptPacket d header payload).calls) := by
  cases ha : isAudio d <;>
    simp [listen, receive, pushPacket_of_some h, h, ← openPacket_header h, hf, ha]

theorem Beside.audio (h : s.Beside sessionId r) (ha : isAudio d = true)
    (hsession : (PacketHeader.ofBytes d).sessionId = sessionId) (hu : Undisturbed lib s d) :
    (listen lib s d).1.Beside sessionId r ∧ emitted (listen lib s d).2 = [] := by
  cases hopen : openPacket lib s.reassembler.crypto d with
  | none => rw [listen_of_none hopen]; exact ⟨h, rfl⟩
  | some opened =>
    obtain ⟨header, payload⟩ := opened
    rw [← openPacket_header hopen] at hsession
    cases hf : (s.reassembler.replayFilter.accept header.sequence).1 with
    | false => rw [listen_of_refused hopen hf]; exact ⟨h, rfl⟩
    | true =>
      have hadm : s.reassembler.Admits header := ⟨hf, fun hl => by rw [hsession, h.session hl]⟩
      have habs : Absorbed s.reassembler header := by
        simpa only [Undisturbed, hopen, ha, if_true] using hu
      have hstate : (s.reassembler.acceptPacket d header payload).state =
          s.reassembler.admitted header ∧
          emitted (s.reassembler.acceptPacket d header payload).calls = [] := by
        rcases s.reassembler.acceptPacket_cases d header payload with
          ⟨hr, -⟩ | ⟨-, hl, hne, -⟩ | ⟨-, -, hs⟩ | ⟨-, hw, hs⟩
        · rw [hf] at hr; cases hr
        · exact absurd (hadm.2 hl) hne
        · rw [hs]; exact ⟨rfl, emitted_missing _⟩
        · obtain ⟨e, he, h₀, hfrag⟩ := habs hadm hw
          have hsettled := h.settled.congr (admitted_pendingFrames s.reassembler header)
          rw [hs, hsettled.storeFragment_of_isSome
            (by rw [admitted_pendingFrames]; exact he) h₀ hfrag]
          exact ⟨rfl, rfl⟩
      rw [listen_of_accepted hopen hf, hstate.1, ha]
      refine ⟨⟨(alike_admitted _ _).trans h.alike, h.settled.congr (by simp),
        fun _ => (admitted_expectedSessionId hadm).trans hsession, h.session', ?_, h.filter'⟩,
        hstate.2⟩
      rw [admitted_replayFilter]
      refine ((h.filter.accept header.sequence).2 hf).of_mem_iff fun n => ?_
      simp only [if_true, List.mem_cons, Set.mem_ofPred_eq, Set.mem_insert_iff]
      tauto

theorem Beside.accept_iff (h : s.Beside sessionId r) {sequence : UInt32}
    (hw : s.InWindow sequence.toNat) :
    (s.reassembler.replayFilter.accept sequence).1 = true ↔
      (r.replayFilter.accept sequence).1 = true := by
  rw [(h.filter.accept sequence).1, (h.filter'.accept sequence).1]
  refine ⟨fun ⟨hn, hb⟩ => ⟨fun hv => hn (.inl hv), fun a ha => hb a (.inl ha)⟩,
    fun ⟨hn, hb⟩ => ?_⟩
  rcases hw with ⟨v, hv, rfl | hle⟩ | hall
  · exact absurd hv hn
  · exact absurd (hb v hv) (by simpa [ReplayFilter.window] using hle)
  · refine ⟨fun hm => hm.elim hn fun ha => (hall _ ha).1 rfl, ?_⟩
    rintro a (hv | ha)
    · exact hb a hv
    · exact (hall a ha).2

theorem Beside.video (h : s.Beside sessionId r) (ha : isAudio d = false)
    (hsession : (PacketHeader.ofBytes d).sessionId = sessionId) (hu : Undisturbed lib s d) :
    (listen lib s d).1.Beside sessionId (receive lib id r d).1 ∧
      emitted (listen lib s d).2 = emitted (receive lib id r d).2 := by
  cases hopen : openPacket lib s.reassembler.crypto d with
  | none =>
    rw [listen_of_none hopen, receive, pushPacket_of_none (h.alike.crypto ▸ hopen)]
    exact ⟨h, rfl⟩
  | some opened =>
    obtain ⟨header, payload⟩ := opened
    have hheader := openPacket_header hopen
    have hpush := pushPacket_of_some hopen d
    have hpush' := pushPacket_of_some (h.alike.crypto ▸ hopen) d
    rw [receive, id, hpush']
    have hwindow : s.InWindow header.sequence.toNat := by
      simpa only [Undisturbed, hopen, ha, Bool.false_eq_true, if_false] using hu
    have hiff := h.accept_iff hwindow
    cases hf : (s.reassembler.replayFilter.accept header.sequence).1 with
    | false =>
      have hf' : (r.replayFilter.accept header.sequence).1 = false := by
        rw [Bool.eq_false_iff, Ne, ← hiff, hf]; simp
      rw [listen_of_refused hopen hf, acceptPacket_of_refused hf']
      exact ⟨h, rfl⟩
    | true =>
      have hf' := hiff.mp hf
      rw [← hheader] at hsession
      have hadm : s.reassembler.Admits header := ⟨hf, fun hl => by rw [hsession, h.session hl]⟩
      have hadm' : r.Admits header := ⟨hf', fun hl => by rw [hsession, h.session' hl]⟩
      obtain ⟨halike, hcalls⟩ := h.alike.acceptPacket hadm hadm' d payload
      have hd : (PacketHeader.ofBytes d).sessionId = sessionId := by rw [← hheader, hsession]
      rw [listen_of_accepted hopen hf, ha]
      refine ⟨⟨halike, hpush ▸ h.settled.pushPacket d d, hpush ▸ pushPacket_session h.session d hd,
        hpush' ▸ pushPacket_session h.session' d hd, ?_, ?_⟩, by rw [hcalls]⟩
      · rw [acceptPacket_replayFilter]
        refine ((h.filter.accept header.sequence).2 hf).of_mem_iff fun n => ?_
        simp only [Bool.false_eq_true, if_false, List.mem_cons, Set.mem_ofPred_eq,
          Set.mem_insert_iff]
        tauto
      · rw [acceptPacket_replayFilter]
        refine ((h.filter'.accept header.sequence).2 hf').of_mem_iff fun n => ?_
        simp

end Listener

def FromVideo (lib : Mbedtls) (crypto : Option SessionCrypto) (f : Fragment Bytes) : Prop :=
  isAudio f.origin = false ∧ ∃ header, openPacket lib crypto f.origin = some (header, f.payload)

theorem madeOf_of_emitted_eq_nil {calls : List (Callback ω)} (h : emitted calls = [])
    (Φ : Fragment ω → Prop) : ∀ c ∈ calls, c.MadeOf Φ := by
  intro c hc
  cases c with
  | missingKeyframe frameId => trivial
  | frameReady frame origins =>
    have hm : frame ∈ emitted calls := List.mem_filterMap.mpr ⟨_, hc, rfl⟩
    rw [h] at hm
    cases hm

theorem Listener.Beside.exec {sessionId : UInt32} {rx : Option SessionCrypto} {ds : List Bytes}
    {s : Listener} {r : FrameReassembler Bytes} (h : s.Beside sessionId r)
    (hcrypto : s.reassembler.crypto = rx) (hall : s.reassembler.AllFragments (FromVideo lib rx))
    (hds : ∀ d ∈ ds, (PacketHeader.ofBytes d).sessionId = sessionId)
    (hg : Machine.Guarded (listen lib) (Undisturbed lib) s ds) :
    framesOf lib id s.reassembler ds = framesOf lib id r (ds.filter (!isAudio ·)) ∧
      ∀ c ∈ (Machine.exec (receive lib id) s.reassembler ds).2, c.MadeOf (FromVideo lib rx) := by
  induction ds generalizing s r with
  | nil => simp [framesOf]
  | cons d ds ih =>
    have hreceive : receive lib id s.reassembler d =
        ((listen lib s d).1.reassembler, (listen lib s d).2) := rfl
    have hcrypto' : (listen lib s d).1.reassembler.crypto = rx :=
      (pushPacket_crypto ..).trans hcrypto
    have hsession := hds d List.mem_cons_self
    have hrest := fun e he => hds e (List.mem_cons_of_mem d he)
    simp only [framesOf, Machine.exec_cons, emitted_append, List.forall_mem_append]
    rw [hreceive]
    cases ha : isAudio d with
    | true =>
      obtain ⟨hbeside, hnone⟩ := h.audio ha hsession hg.1
      have hall' : (listen lib s d).1.reassembler.AllFragments (FromVideo lib rx) :=
        hall.of_pendingFrames (by rw [hbeside.alike.pendingFrames, h.alike.pendingFrames])
      obtain ⟨hframes, hmade⟩ := ih hbeside hcrypto' hall' hrest hg.2
      refine ⟨?_, madeOf_of_emitted_eq_nil hnone _, hmade⟩
      rw [hnone, List.nil_append, List.filter_cons_of_neg (by simp [ha])]
      exact hframes
    | false =>
      obtain ⟨hbeside, heq⟩ := h.video ha hsession hg.1
      have hpush : (s.reassembler.pushPacket lib d d).state.AllFragments (FromVideo lib rx) ∧
          ∀ c ∈ (s.reassembler.pushPacket lib d d).calls, c.MadeOf (FromVideo lib rx) :=
        hall.pushPacket fun header payload ho _ _ => ⟨ha, header, hcrypto ▸ ho⟩
      obtain ⟨hall', hmade'⟩ := hpush
      obtain ⟨hframes, hmade⟩ := ih hbeside hcrypto' hall' hrest hg.2
      refine ⟨?_, hmade', hmade⟩
      rw [heq, List.filter_cons_of_pos (by simp [ha]), Machine.exec_cons, emitted_append]
      exact congrArg _ hframes

/-- With the streams undisturbed, the frames emitted are those of the video packets alone, and
no audio payload is part of one. -/
theorem framesOf_filter_audio (p : Packetizer) (calls : List Packetizer.Call)
    (rx : Option SessionCrypto) {ds : List Bytes}
    (hds : ∀ d ∈ ds, d ∈ packets (Machine.exec (Packetizer.call lib) p calls).2)
    (hg : Machine.Guarded (Listener.listen lib) (Listener.Undisturbed lib)
      { reassembler := setCrypto {} rx } ds) :
    framesOf lib id (setCrypto {} rx) ds =
        framesOf lib id (setCrypto {} rx) (ds.filter (!isAudio ·)) ∧
      ∀ c ∈ (Machine.exec (receive lib id) (setCrypto {} rx) ds).2,
        c.MadeOf (FromVideo lib rx) := by
  have hbeside : Listener.Beside p.sessionId { reassembler := setCrypto {} rx }
      (setCrypto {} rx) := by
    refine ⟨⟨rfl, rfl, rfl, rfl⟩, settled_of_empty rfl, by simp [setCrypto], by simp [setCrypto],
      ?_, ?_⟩ <;> exact .inl ⟨rfl, by ext; simp⟩
  exact hbeside.exec rfl (allFragments_of_empty rfl)
    (fun d hd => sessionId_of_mem_packets (hds d hd)) hg

set_option maxRecDepth 100000 in
theorem framesOf_filter_audio_sample :
    let sent := packets (Machine.exec (Packetizer.call .sample) ⟨7, 0, some .sample⟩
      [.audio (.data [9]) 1 4, .video (.data [1, 2, 3]) 1 5 true, .audio (.data [9]) 1 6,
        .video (.data [4]) 2 7 false]).2
    let r : FrameReassembler Bytes := setCrypto {} (some .sample)
    (framesOf .sample id r sent = framesOf .sample id r (sent.filter (!isAudio ·)) ∧
      ∀ c ∈ (Machine.exec (receive .sample id) r sent).2,
        c.MadeOf (FromVideo .sample (some .sample))) ∧
      (sent.map isAudio = [true, false, true, false] ∧ (framesOf .sample id r sent).length = 2) :=
  ⟨framesOf_filter_audio _ _ _ (fun _ hd => hd) (by decide), by decide⟩

set_option maxRecDepth 100000 in
/-- An audio packet numbered after the last video frame is emitted as a frame. -/
theorem framesOf_audio_ne :
    let sent := packets (Machine.exec (Packetizer.call .sample) ⟨7, 0, none⟩
      [.video (.data [1, 2, 3]) 1 5 true, .audio (.data [9]) 1 6, .audio (.data [9]) 2 7]).2
    framesOf .sample id {} sent ≠ framesOf .sample id {} (sent.filter (!isAudio ·)) := by decide

end VeyraCam
