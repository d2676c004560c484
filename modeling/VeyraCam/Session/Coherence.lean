import VeyraCam.Session.VeyraSession

/-! # The media path between events

What holds of the reassembler and the jitter buffer of a session after any run:
they wait for a keyframe together, and while they do, nothing has been emitted
and only keyframes are pending.
-/

namespace VeyraCam

namespace ReplayFilter

@[simp] theorem accept_seenAny (f : ReplayFilter) (sequence : UInt32) :
    (f.accept sequence).2.seenAny = true := by
  unfold accept
  cases hs : f.seenAny with
  | false => rfl
  | true =>
    dsimp only
    split_ifs <;> simp_all

end ReplayFilter

namespace FrameReassembler

variable {lib : Mbedtls} {r : FrameReassembler Unit} {header : PacketHeader} {payload : Bytes}

/-- What a session relies on in its reassembler: it waits for a keyframe with nothing but
keyframes, no entry is empty, and no number has been seen before the session is locked. -/
structure Kept (r : FrameReassembler Unit) : Prop where
  settled : r.Settled
  keyframes : r.waitingForKeyframe = true → r.lastEmittedFrameId = 0 ∧
    ∀ k e, r.pendingFrames.find? k = some e → e.isKeyframe = true
  stored : ∀ k e, r.pendingFrames.find? k = some e → e.fragments.keys ≠ []
  tracks : ∃ A, r.replayFilter.Tracks A
  unseen : r.replayFilter.seenAny = false → r.replayFilter = {} ∧ r.sessionLocked = false

theorem kept_of_empty (h : r.pendingFrames = ∅) (hl : r.lastEmittedFrameId = 0)
    (hf : r.replayFilter = {}) (hs : r.sessionLocked = false) : r.Kept where
  settled := settled_of_empty h
  keyframes _ := ⟨hl, fun k e he => by rw [h] at he; cases he⟩
  stored k e he := by rw [h] at he; cases he
  tracks := ⟨∅, by rw [hf]; exact ReplayFilter.tracks_empty⟩
  unseen _ := ⟨hf, hs⟩

theorem Kept.setCrypto (h : r.Kept) (crypto : Option SessionCrypto) : (r.setCrypto crypto).Kept :=
  ⟨h.settled.congr rfl, h.keyframes, h.stored, ⟨∅, ReplayFilter.tracks_empty⟩,
    fun _ => ⟨rfl, rfl⟩⟩

theorem keys_pendingWith_ne_nil (r : FrameReassembler Unit) (header : PacketHeader)
    (payload : Bytes) : (r.pendingWith () header payload).fragments.keys ≠ [] := by
  rw [pendingWith_eq]
  exact List.ne_nil_of_mem (PendingFrame.mem_keys_addFragment.mpr (.inl rfl))

theorem Kept.isKeyframe_pendingWith (h : r.Kept) (hw : r.waitingForKeyframe = true)
    (hwants : r.Wants header) : (r.pendingWith () header payload).isKeyframe = true := by
  have hadd (e : PendingFrame Unit) (i : UInt16) (f : Fragment Unit) :
      (e.addFragment i f).isKeyframe = e.isKeyframe := by
    unfold PendingFrame.addFragment
    split_ifs <;> rfl
  have hkey : header.isKeyframe = true := by
    unfold Wants at hwants
    rwa [if_pos hw] at hwants
  rw [pendingWith_eq, hadd, entryFor, PendingFrame.start]
  split_ifs with h₀
  · exact hkey
  · cases he : r.pendingFrames.find? header.frameId with
    | none => rw [he] at h₀; exact absurd rfl h₀
    | some e => exact (h.keyframes hw).2 _ e he

theorem Kept.storeFragment (h : r.Kept) (hwants : r.Wants header) :
    (r.storeFragment () header payload).state.Kept := by
  have hsettled := h.settled.storeFragment () header payload
  have hstored : ∀ k e, (r.storeFragment () header payload).state.pendingFrames.find? k = some e →
      e.fragments.keys ≠ [] := by
    intro k e he
    rcases find?_storeFragment he with ⟨-, rfl⟩ | he
    · exact r.keys_pendingWith_ne_nil header payload
    · exact h.stored k e he
  refine ⟨hsettled, ?_, hstored, by simpa using h.tracks, by simpa using h.unseen⟩
  rcases r.storeFragment_cases () header payload rfl with ⟨-, hs⟩ | ⟨-, hs⟩
  · rw [hs]
    intro hw
    cases hw
  · have hwaiting : (r.storeFragment () header payload).state.waitingForKeyframe =
        r.waitingForKeyframe := by rw [hs]
    have hlast : (r.storeFragment () header payload).state.lastEmittedFrameId =
        r.lastEmittedFrameId := by rw [hs]
    rw [hwaiting, hlast]
    refine fun hw => ⟨(h.keyframes hw).1, fun k e he => ?_⟩
    rcases find?_storeFragment he with ⟨-, rfl⟩ | he
    · exact h.isKeyframe_pendingWith hw hwants
    · exact (h.keyframes hw).2 k e he

theorem Kept.admitted (h : r.Kept) (ha : r.Admits header) : (r.admitted header).Kept := by
  obtain ⟨A, ht⟩ := h.tracks
  refine ⟨h.settled.congr (by simp), by simpa using h.keyframes, by simpa using h.stored,
    ⟨_, by simpa using (ht.accept header.sequence).2 ha.1⟩, by simp⟩

theorem Kept.pushPacket (h : r.Kept) (packetData : Bytes) :
    (r.pushPacket lib () packetData).state.Kept := by
  unfold FrameReassembler.pushPacket
  split
  · exact h
  · next header payload _ =>
    rcases r.acceptPacket_cases () header payload with
      ⟨-, hs⟩ | ⟨hf, -, -, hs⟩ | ⟨ha, -, hs⟩ | ⟨ha, hw, hs⟩ <;> rw [hs]
    · exact h
    · obtain ⟨A, ht⟩ := h.tracks
      exact ⟨h.settled.congr rfl, h.keyframes, h.stored,
        ⟨_, (ht.accept header.sequence).2 hf⟩, by simp⟩
    · exact h.admitted ha
    · exact (h.admitted ha).storeFragment (((alike_admitted r header).wants_iff header).mpr hw)

end FrameReassembler

namespace JitterBuffer

@[simp] theorem pushFrame_config (b : JitterBuffer) (frame : VideoFrame) (now : ℤ) :
    (b.pushFrame frame now).1.config = b.config := by
  unfold pushFrame; split_ifs <;> rfl

@[simp] theorem pushFrame_currentTargetDelayMs (b : JitterBuffer) (frame : VideoFrame) (now : ℤ) :
    (b.pushFrame frame now).1.currentTargetDelayMs = b.currentTargetDelayMs := by
  unfold pushFrame; split_ifs <;> rfl

theorem pushFrame_waiting (b : JitterBuffer) (frame : VideoFrame) (now : ℤ) :
    (b.pushFrame frame now).1.waitingForInitialKeyframe =
      (b.waitingForInitialKeyframe && !frame.isKeyframe) := by
  unfold pushFrame
  split_ifs with h
  · simp_all
  · exact (Bool.eq_false_iff.mpr h).symm

@[simp] theorem popNextFrame_config (b : JitterBuffer) (now : ℤ) :
    (b.popNextFrame now).1.config = b.config := by
  unfold popNextFrame
  split
  · rfl
  · split_ifs <;> rfl

@[simp] theorem popNextFrame_currentTargetDelayMs (b : JitterBuffer) (now : ℤ) :
    (b.popNextFrame now).1.currentTargetDelayMs = b.currentTargetDelayMs := by
  unfold popNextFrame
  split
  · rfl
  · split_ifs <;> rfl

@[simp] theorem popNextFrame_waiting (b : JitterBuffer) (now : ℤ) :
    (b.popNextFrame now).1.waitingForInitialKeyframe = b.waitingForInitialKeyframe := by
  unfold popNextFrame
  split
  · rfl
  · split_ifs <;> rfl

end JitterBuffer

namespace VeyraSession

variable {lib : Mbedtls} {s : VeyraSession}

/-- The reassembler and the jitter buffer of a session wait for a keyframe together. -/
structure Coherent (r : FrameReassembler Unit) (b : JitterBuffer) : Prop where
  kept : r.Kept
  orderly : b.Orderly
  config : b.config = {}
  currentTargetDelayMs : b.currentTargetDelayMs = 20
  waiting : b.waitingForInitialKeyframe = r.waitingForKeyframe

theorem Coherent.onPacket (h : Coherent s.reassembler s.jitterBuffer) (data : Bytes)
    (pushedAt poppedAt : ℤ) :
    Coherent (s.onPacket lib data pushedAt poppedAt).1.reassembler
      (s.onPacket lib data pushedAt poppedAt).1.jitterBuffer := by
  have hkept : (s.reassembler.pushPacket lib () data).state.Kept := h.kept.pushPacket data
  rcases s.onPacket_cases lib data pushedAt poppedAt with
    ⟨header, payload, ho, ha, hw, hc, hs⟩ | ⟨hc, hs, -⟩ <;> rw [hs]
  · refine ⟨hkept, (h.orderly.pushFrame _ pushedAt).popNextFrame poppedAt, ?_, ?_, ?_⟩
    · simpa [onAssembledFrameReady] using h.config
    · simpa [onAssembledFrameReady] using h.currentTargetDelayMs
    · have hkeyframe : s.jitterBuffer.waitingForInitialKeyframe = true →
          (s.reassembler.pendingWith () header payload).isKeyframe = true := fun hwait =>
        h.kept.isKeyframe_pendingWith (h.waiting ▸ hwait) hw
      have hcompletes : s.reassembler.Completes lib () data := ⟨(header, payload), ho, ha, hw, hc⟩
      obtain ⟨-, -, -, -, -, -, -, hdone, -⟩ := hcompletes.pushPacket_eq
      simp only [onAssembledFrameReady, JitterBuffer.popNextFrame_waiting,
        JitterBuffer.pushFrame_waiting, hdone, PendingFrame.assemble]
      cases hwait : s.jitterBuffer.waitingForInitialKeyframe with
      | false => rfl
      | true => rw [hkeyframe hwait]; rfl
  · have hstill := (FrameReassembler.pushPacket_of_not_completes hc).2.1
    exact ⟨hkept, h.orderly, h.config, h.currentTargetDelayMs, h.waiting.trans hstill.symm⟩

/-- What holds of the media path after every run from a new session. -/
theorem coherent_after (lib : Mbedtls) (events : List SessionEvent) :
    let s := (Machine.exec (step lib) {} events).1
    Coherent s.reassembler s.jitterBuffer := by
  apply Machine.invariant (I := fun s : VeyraSession => Coherent s.reassembler s.jitterBuffer)
  · intro s e h
    apply media_step (P := Coherent) _ _ _ h
    · exact fun r b crypto h => ⟨h.kept.setCrypto crypto, h.orderly, h.config,
        h.currentTargetDelayMs, h.waiting⟩
    · exact fun r b h => ⟨FrameReassembler.kept_of_empty rfl rfl rfl rfl, b.orderly_flush,
        h.config, h.currentTargetDelayMs, rfl⟩
    · exact fun s data pushedAt poppedAt h => h.onPacket data pushedAt poppedAt
  · exact ⟨FrameReassembler.kept_of_empty rfl rfl rfl rfl,
      ⟨List.Pairwise.nil, Nat.zero_le _, fun _ => rfl⟩, rfl, rfl, rfl⟩

end VeyraSession

end VeyraCam
