import VeyraCam.Packet.Transmission
import VeyraCam.Session.Coherence
import VeyraCam.Session.Indistinct

/-! # Stop and restart

`StopSession` flushes the jitter buffer and resets the reassembler, but the reset
leaves the key armed, and in two states `StopSession` returns before it does
either. A restarted session is like a new one exactly when nothing of this is
left for the first packet to meet.
-/

namespace VeyraCam

namespace ReplayFilter

theorem Tracks.accept_highest {A : Set ℕ} {f : ReplayFilter} (h : f.Tracks A)
    (hs : f.seenAny = true) : (f.accept f.highest).1 = false := by
  rcases h with ⟨hn, -⟩ | ⟨-, hr⟩
  · rw [hs] at hn
    cases hn
  · have hspec := (acceptSpec_of_le hs hr (UInt32.le_refl f.highest)).1
    rw [Bool.eq_false_iff]
    exact fun ht => (hspec.mp ht).1 hr.mem

end ReplayFilter

namespace FrameReassembler

variable {lib : Mbedtls} {r : FrameReassembler Unit} {header : PacketHeader} {payload : Bytes}

theorem isStale_lastEmittedFrameId (r : FrameReassembler Unit) :
    r.isStale r.lastEmittedFrameId = true := by
  simp [isStale]

theorem openPacket_of_plaintext {packetData : Bytes}
    (h : openPacket lib none packetData = some (header, payload)) (he : header.isEncrypted = false)
    (crypto : SessionCrypto) : openPacket lib (some crypto) packetData = none := by
  unfold openPacket at h ⊢
  split at h
  · cases h
  · next header' hd =>
    dsimp only at h ⊢
    split_ifs at h ⊢
    · rfl
    · obtain ⟨rfl, -⟩ := Prod.mk.inj (Option.some.inj h)
      simp_all

theorem Kept.isComplete_of_stored (h : r.Kept) {k : UInt32} {e : PendingFrame Unit}
    (he : r.pendingFrames.find? k = some e) {index : UInt16} (hi : index ∈ e.fragments.keys)
    (hk : header.frameId = k) (hindex : header.fragmentIndex = index)
    (hcount : header.fragmentCount = 1) :
    (r.pendingWith () header payload).isComplete = false := by
  obtain ⟨f, hf⟩ := Option.isSome_iff_exists.mp (OrderedMap.mem_keys_iff.mp hi)
  have hname := h.settled.named k e he
  rw [pendingWith_eq, entryFor, hk, he, Option.getD_some, hindex]
  have hadd : ((e.start header).addFragment index ⟨payload, ()⟩) = e.start header := by
    rw [PendingFrame.addFragment, PendingFrame.start_fragments, hf]
    rfl
  rw [hadd]
  unfold PendingFrame.start
  split_ifs with h₀
  · simp [PendingFrame.isComplete, hcount]
  · exact h.settled.incomplete k e he

end FrameReassembler

namespace VeyraSession

variable {lib : Mbedtls} {s : VeyraSession} {config : StreamConfig}

/-- A new session with the same crypto, and the same transports registered. -/
def anew (s : VeyraSession) : VeyraSession :=
  { ({} : VeyraSession).setCrypto s.crypto with transports := s.transports }

/-- Packets in plaintext when encryption is off and otherwise encrypted under the key of the
session, and transports for them to arrive at. -/
def Admissible (lib : Mbedtls) (config : StreamConfig) (crypto : Option SessionCrypto) :
    SessionEvent → Prop
  | .packet _ data _ _ =>
    if config.enableEncryption then (FrameReassembler.openPacket lib crypto data).isSome = true
    else (PacketHeader.ofBytes data).isEncrypted = false
  | .registerTransport _ => True
  | _ => False

/-- Started again, the session delivers the frames that a new one does. -/
def RestartsAnew (lib : Mbedtls) (s : VeyraSession) (config : StreamConfig) : Prop :=
  ∀ later, (∀ e ∈ later, Admissible lib config s.crypto e) →
    frames (Machine.exec (step lib) (s.startSession config).1 later).2 =
      frames (Machine.exec (step lib) (s.anew.startSession config).1 later).2

/-- Nothing is left that the first packet can meet: no frame has been emitted, no fragment is
stored, and without encryption no key is armed and no number has been seen. -/
structure StartsClean (s : VeyraSession) (config : StreamConfig) : Prop where
  waiting : s.reassembler.waitingForKeyframe = true
  pendingFrames : s.reassembler.pendingFrames = ∅
  plaintext : config.enableEncryption = false →
    s.reassembler.crypto = none ∧ s.reassembler.replayFilter.seenAny = false

def started (s : VeyraSession) (config : StreamConfig) : FrameReassembler Unit :=
  if config.enableEncryption then s.reassembler.setCrypto s.crypto else s.reassembler

theorem startSession_of_ok (h : (s.startSession config).2.2 = true) :
    (s.startSession config).1 =
      { s with config, state := .streaming, reassembler := s.started config } ∧
    (config.enableEncryption = true → ∃ crypto, s.crypto = some crypto ∧
      crypto.hasKeys = true) := by
  unfold startSession setState started at *
  dsimp only at *
  by_cases he : config.enableEncryption = true
  · rw [if_pos he] at h ⊢
    rw [if_pos he]
    cases hc : s.crypto with
    | none => rw [hc] at h; cases h
    | some crypto =>
      rw [hc] at h
      dsimp only at h ⊢
      cases hk : crypto.hasKeys with
      | false => rw [hk] at h; cases h
      | true => exact ⟨rfl, fun _ => ⟨crypto, rfl, hk⟩⟩
  · rw [if_neg he, if_neg he]
    exact ⟨rfl, fun h => absurd h he⟩

theorem startSession_anew_ok (h : (s.startSession config).2.2 = true) :
    (s.anew.startSession config).2.2 = true := by
  have hanew : s.anew.crypto = s.crypto := by
    unfold anew setCrypto
    split_ifs <;> rfl
  obtain ⟨-, hkeyed⟩ := startSession_of_ok h
  unfold startSession setState
  dsimp only
  by_cases he : config.enableEncryption = true
  · obtain ⟨crypto, hc, hk⟩ := hkeyed he
    simp [he, hanew, hc, hk]
  · simp [he]

theorem anew_eq (s : VeyraSession) :
    s.anew = { crypto := s.crypto, transports := s.transports } := by
  unfold anew setCrypto
  rw [if_neg (by simp)]

theorem StartsClean.same (h : s.StartsClean config) (hc : Coherent s.reassembler s.jitterBuffer)
    (hrun : s.crashed = false) (hok : (s.startSession config).2.2 = true) :
    (s.startSession config).1.Same (s.anew.startSession config).1 := by
  rw [(startSession_of_ok hok).1, (startSession_of_ok (startSession_anew_ok hok)).1, anew_eq]
  have hlast := (hc.kept.keyframes h.waiting).1
  have hempty := hc.orderly.empty (hc.waiting.trans h.waiting)
  refine ⟨rfl, rfl, hrun, ?_, ⟨hc.config, hempty, hc.currentTargetDelayMs,
    hc.waiting.trans h.waiting⟩⟩
  unfold started
  dsimp only
  split_ifs with he
  · exact ⟨⟨rfl, h.pendingFrames, hlast, h.waiting⟩, rfl, rfl, by simp [FrameReassembler.setCrypto]⟩
  · obtain ⟨hkey, hunseen⟩ := h.plaintext (by simpa using he)
    obtain ⟨hfilter, hlocked⟩ := hc.kept.unseen hunseen
    exact ⟨⟨hkey, h.pendingFrames, hlast, h.waiting⟩, hfilter, hlocked, by simp [hlocked]⟩

theorem StartsClean.restartsAnew (h : s.StartsClean config)
    (hc : Coherent s.reassembler s.jitterBuffer) (hrun : s.crashed = false)
    (hok : (s.startSession config).2.2 = true) : s.RestartsAnew lib config := by
  intro later hlater
  rw [(h.same hc hrun hok).exec]
  intro e he
  have hadmissible := hlater e he
  cases e with
  | packet | registerTransport => trivial
  | startSession | stopSession | pauseSession | resumeSession | setCrypto =>
    cases hadmissible

structure IsProbe (lib : Mbedtls) (key : Option SessionCrypto) (packet : Bytes)
    (header : PacketHeader) : Prop where
  opens : FrameReassembler.openPacket lib key packet = some (header, [0])
  keyframe : header.isKeyframe = true
  single : header.fragmentCount = 1
  encrypted : header.isEncrypted = key.isSome

theorem exists_isProbe {tx key : Option SessionCrypto} (hp : Paired lib tx key)
    (hsucceeds : lib.EncryptSucceeds) (frameId sequence : UInt32) (index : UInt16) :
    ∃ packet header, IsProbe lib key packet header ∧ header.frameId = frameId ∧
      header.sequence = sequence ∧ header.fragmentIndex = index := by
  let p : Packetizer := ⟨0, sequence, tx⟩
  let header := p.videoHeader frameId 0 true index 1 1
  have hisSome := Packetizer.sendPacket_isSome (p := p) (hp.keys fun _ => hsucceeds) header [0]
  obtain ⟨packet, hpacket⟩ := Option.isSome_iff_exists.mp hisSome
  have hdescribes := Packetizer.videoHeader_describes (p := p) p.maxPlaintext_pos frameId 0 true
    index 1
  have hkey : tx.isSome = key.isSome := by
    cases hp <;> rfl
  refine ⟨packet, header, ⟨?_, p.wireFlags_keyframe true, rfl, ?_⟩, rfl, rfl, rfl⟩
  · exact Packetizer.openPacket_sendPacket (p := p) hp hdescribes hpacket
  · exact hdescribes.encrypted.trans hkey

theorem IsProbe.admissible {packet : Bytes} {header : PacketHeader}
    (h : IsProbe lib (if config.enableEncryption then s.crypto else none) packet header) :
    Admissible lib config s.crypto (.packet 0 packet 0 20000000) := by
  unfold Admissible
  dsimp only
  by_cases he : config.enableEncryption = true
  · rw [if_pos he] at h ⊢
    rw [h.opens]
    rfl
  · rw [if_neg he] at h ⊢
    rw [← FrameReassembler.openPacket_header h.opens]
    exact h.encrypted

theorem IsProbe.completes {packet : Bytes} {header : PacketHeader} {r : FrameReassembler Unit}
    (h : IsProbe lib r.crypto packet header) (hw : r.waitingForKeyframe = true)
    (hp : r.pendingFrames = ∅) (hf : r.replayFilter = {}) (hl : r.sessionLocked = false) :
    r.Completes lib () packet ∧ (r.pendingWith () header [0]).assemble.isKeyframe = true := by
  have ha : r.Admits header := by
    refine ⟨by rw [hf]; rfl, fun hlocked => ?_⟩
    rw [hl] at hlocked
    cases hlocked
  have hwants : r.Wants header := by
    unfold FrameReassembler.Wants
    rw [if_pos hw]
    exact h.keyframe
  have hpending : r.pendingWith () header [0] =
      (({} : PendingFrame Unit).start header).addFragment header.fragmentIndex ⟨[0], ()⟩ := by
    rw [FrameReassembler.pendingWith, hp]
    rfl
  have hc : (r.pendingWith () header [0]).isComplete = true := by
    rw [hpending]
    have hstart : ({} : PendingFrame Unit).start header =
        { frameId := header.frameId, timestampUs := header.timestampUs, isKeyframe := true,
          totalFragments := 1 } := by
      rw [PendingFrame.start, if_pos rfl, h.keyframe, h.single]
    rw [hstart]
    rfl
  refine ⟨⟨(header, [0]), h.opens, ha, hwants, hc⟩, ?_⟩
  rw [hpending]
  unfold PendingFrame.addFragment PendingFrame.start PendingFrame.assemble
  rw [if_pos rfl]
  split_ifs <;> exact h.keyframe

/-- A packet that comes 20 milliseconds before the next clock reading, at a transport of its
own. -/
def probing (packet : Bytes) : List SessionEvent :=
  [.registerTransport (some 0), .packet 0 packet 0 20000000]

theorem exec_probing (hrun : s.crashed = false) (packet : Bytes) :
    (Machine.exec (step lib) s (probing packet)).2 =
      ({ s with transports := 0 :: s.transports }.onPacket lib packet 0 20000000).2 := by
  simp [probing, step, hrun]

theorem frames_onPacket_of_not_completes {packet : Bytes}
    (h : ¬ s.reassembler.Completes lib () packet) (pushedAt poppedAt : ℤ) :
    frames (s.onPacket lib packet pushedAt poppedAt).2 = [] := by
  rcases s.onPacket_cases lib packet pushedAt poppedAt with
    ⟨header, payload, ho, ha, hw, hc, -⟩ | ⟨-, -, houtputs⟩
  · exact absurd ⟨(header, payload), ho, ha, hw, hc⟩ h
  · rw [List.eq_nil_iff_forall_not_mem]
    intro frame hframe
    obtain ⟨during, houtput⟩ := mem_frames_iff.mp hframe
    cases houtputs _ houtput

def streamKey (s : VeyraSession) (config : StreamConfig) : Option SessionCrypto :=
  if config.enableEncryption then s.crypto else none

theorem started_new (s : VeyraSession) (config : StreamConfig) :
    started { crypto := s.crypto, transports := s.transports } config =
      { crypto := s.streamKey config } := by
  unfold started streamKey
  split_ifs <;> rfl

theorem releases_of_isKeyframe {frame : VideoFrame} (h : frame.isKeyframe = true) :
    ({} : JitterBuffer).Releases frame 0 20000000 := by
  refine ⟨fun _ => h, ?_⟩
  have hdue : (20 : ℤ) ≤ JitterBuffer.elapsedMs 0 20000000 := by decide
  simpa [JitterBuffer.isDue, JitterBuffer.queueWith, JitterBuffer.dropStale] using hdue

theorem frames_anew_ne_nil (hok : (s.startSession config).2.2 = true) {packet : Bytes}
    {header : PacketHeader} (h : IsProbe lib (s.streamKey config) packet header) :
    frames (Machine.exec (step lib) (s.anew.startSession config).1 (probing packet)).2 ≠ [] := by
  rw [(startSession_of_ok (startSession_anew_ok hok)).1, anew_eq, exec_probing (by rfl),
    started_new]
  obtain ⟨hcompletes, hkeyframe⟩ := IsProbe.completes
    (r := { crypto := s.streamKey config }) h rfl rfl rfl rfl
  let t : VeyraSession :=
    { state := .streaming
      config
      crypto := s.crypto
      reassembler := { crypto := s.streamKey config }
      transports := 0 :: s.transports }
  change frames (t.onPacket lib packet 0 20000000).2 ≠ []
  rcases t.onPacket_cases lib packet 0 20000000 with ⟨header', payload, ho, -, -, -, hs⟩ | ⟨hn, -⟩
  · obtain ⟨rfl, rfl⟩ := Prod.mk.inj (Option.some.inj (h.opens.symm.trans ho))
    have horderly : ({} : JitterBuffer).Orderly :=
      ⟨List.Pairwise.nil, Nat.zero_le _, fun _ => rfl⟩
    have hsome := (horderly.isSome_popNextFrame_iff _ 0 20000000).mpr
      (releases_of_isKeyframe hkeyframe)
    obtain ⟨ready, hready⟩ := Option.isSome_iff_exists.mp hsome
    rw [hs, frames_onAssembledFrameReady]
    change (JitterBuffer.popNextFrame (JitterBuffer.pushFrame {} _ 0).1 20000000).2.toList ≠ []
    rw [hready]
    exact List.cons_ne_nil _ _
  · exact absurd hcompletes hn

theorem not_restartsAnew_of_isProbe (hrun : s.crashed = false)
    (hok : (s.startSession config).2.2 = true) {packet : Bytes} {header : PacketHeader}
    (h : IsProbe lib (s.streamKey config) packet header)
    (hn : ¬ (s.started config).Completes lib () packet) : ¬ s.RestartsAnew lib config := by
  intro hanew
  have heq := hanew (probing packet) (by
    simp only [probing, List.forall_mem_cons]
    exact ⟨trivial, h.admissible, List.forall_mem_nil _⟩)
  refine frames_anew_ne_nil hok h (heq.symm.trans ?_)
  rw [(startSession_of_ok hok).1, exec_probing (by exact hrun)]
  exact frames_onPacket_of_not_completes hn 0 20000000

/-- What every probe finds in a reassembler in which each makes a frame. -/
structure Receptive (lib : Mbedtls) (key : Option SessionCrypto) (r : FrameReassembler Unit) :
    Prop where
  completes : ∀ frameId sequence index, ∃ packet header, IsProbe lib key packet header ∧
    header.frameId = frameId ∧ header.sequence = sequence ∧ header.fragmentIndex = index ∧
      ∃ payload, FrameReassembler.openPacket lib r.crypto packet = some (header, payload) ∧
        r.Admits header ∧ r.Wants header ∧ (r.pendingWith () header payload).isComplete = true

variable {key : Option SessionCrypto} {r : FrameReassembler Unit}

theorem Receptive.waiting (h : Receptive lib key r) : r.waitingForKeyframe = true := by
  obtain ⟨_, header, -, hid, -, -, _, -, -, hwants, -⟩ := h.completes r.lastEmittedFrameId 0 0
  by_contra hw
  unfold FrameReassembler.Wants at hwants
  rw [if_neg hw, hid, r.isStale_lastEmittedFrameId] at hwants
  cases hwants

theorem Receptive.pendingFrames (h : Receptive lib key r) (hk : r.Kept) : r.pendingFrames = ∅ := by
  apply OrderedMap.eq_of_find?
  intro k
  rw [OrderedMap.find?_empty, Option.eq_none_iff_forall_ne_some]
  intro e he
  obtain ⟨index, hi⟩ := List.exists_mem_of_ne_nil _ (hk.stored k e he)
  obtain ⟨_, header, hprobe, hid, -, hindex, _, -, -, -, hc⟩ := h.completes k 0 index
  rw [hk.isComplete_of_stored he hi hid hindex hprobe.single] at hc
  cases hc

theorem Receptive.crypto (h : Receptive lib none r) : r.crypto = none := by
  obtain ⟨_, header, hprobe, -, -, -, _, ho, -⟩ := h.completes 0 0 0
  rw [Option.eq_none_iff_forall_ne_some]
  intro crypto hcrypto
  rw [hcrypto, FrameReassembler.openPacket_of_plaintext hprobe.opens hprobe.encrypted] at ho
  cases ho

theorem Receptive.unseen (h : Receptive lib key r) (hk : r.Kept) :
    r.replayFilter.seenAny = false := by
  obtain ⟨A, ht⟩ := hk.tracks
  obtain ⟨_, header, -, -, hsequence, -, _, -, ha, -⟩ := h.completes 0 r.replayFilter.highest 0
  by_contra hs
  have hrefused := ht.accept_highest (by simpa using hs)
  rw [← hsequence, ha.1] at hrefused
  cases hrefused

/-- When the restarted session cannot be told from a new one, every probe makes a frame. -/
theorem RestartsAnew.receptive (h : s.RestartsAnew lib config) (hrun : s.crashed = false)
    (hok : (s.startSession config).2.2 = true) {tx : Option SessionCrypto}
    (hp : Paired lib tx (s.streamKey config)) (hsucceeds : lib.EncryptSucceeds) :
    Receptive lib (s.streamKey config) (s.started config) := by
  constructor
  intro frameId sequence index
  obtain ⟨packet, header, hprobe, hid, hsequence, hindex⟩ :=
    exists_isProbe hp hsucceeds frameId sequence index
  have hcompletes : (s.started config).Completes lib () packet := by
    by_contra hn
    exact not_restartsAnew_of_isProbe hrun hok hprobe hn h
  obtain ⟨⟨header', payload⟩, ho, ha, hw, hc⟩ := hcompletes
  obtain rfl : header' = header := (FrameReassembler.openPacket_header ho).trans
    (FrameReassembler.openPacket_header hprobe.opens).symm
  exact ⟨packet, header', hprobe, hid, hsequence, hindex, payload, ho, ha, hw, hc⟩

theorem RestartsAnew.startsClean (h : s.RestartsAnew lib config)
    (hc : Coherent s.reassembler s.jitterBuffer) (hrun : s.crashed = false)
    (hok : (s.startSession config).2.2 = true) (hinverts : lib.DecryptInvertsEncrypt)
    (hsucceeds : lib.EncryptSucceeds) : s.StartsClean config := by
  by_cases he : config.enableEncryption = true
  · obtain ⟨crypto, hcrypto, hkeyed⟩ := (startSession_of_ok hok).2 he
    have hkey : s.streamKey config = some crypto := by rw [streamKey, if_pos he, hcrypto]
    have hp : Paired lib (some crypto.mirror) (s.streamKey config) := by
      rw [hkey]
      exact .keyed (SessionCrypto.mirrors_mirror hkeyed) hinverts
    have hreceptive := h.receptive hrun hok hp hsucceeds
    have hstarted : s.started config = s.reassembler.setCrypto s.crypto := if_pos he
    rw [hstarted] at hreceptive
    exact ⟨hreceptive.waiting, hreceptive.pendingFrames (hc.kept.setCrypto _),
      fun hn => absurd he (by simp [hn])⟩
  · have hkey : s.streamKey config = none := if_neg he
    have hp : Paired lib none (s.streamKey config) := by
      rw [hkey]
      exact .keyless
    have hreceptive := h.receptive hrun hok hp hsucceeds
    have hstarted : s.started config = s.reassembler := if_neg he
    rw [hstarted, hkey] at hreceptive
    exact ⟨hreceptive.waiting, hreceptive.pendingFrames hc.kept,
      fun _ => ⟨hreceptive.crypto, hreceptive.unseen hc.kept⟩⟩

/-- After every run that ends in `StopSession`, a session that is started again behaves as a
new one exactly when nothing is left for the first packet to meet. -/
theorem restartsAnew_iff_startsClean (hinverts : lib.DecryptInvertsEncrypt)
    (hsucceeds : lib.EncryptSucceeds) (history : List SessionEvent) (config : StreamConfig) :
    let s := (Machine.exec (step lib) {} (history ++ [.stopSession])).1
    s.crashed = false → (s.startSession config).2.2 = true →
      (s.RestartsAnew lib config ↔ s.StartsClean config) := by
  intro s hrun hok
  have hc : Coherent s.reassembler s.jitterBuffer := coherent_after lib _
  constructor
  · exact fun h => h.startsClean hc hrun hok hinverts hsucceeds
  · exact fun h => h.restartsAnew hc hrun hok

/-- An encrypted stream of which a frame is received. -/
def sampleStream : List SessionEvent :=
  [.registerTransport (some 0), .setCrypto (some .sample),
    .startSession { enableEncryption := true },
    .packet 0 (samplePacket (some .sample)) 0 20000000]

set_option maxRecDepth 100000 in
theorem restartsAnew_iff_startsClean_sample :
    let s := (Machine.exec (step .sample) {} (sampleStream ++ [.stopSession])).1
    (frames (Machine.exec (step .sample) {} sampleStream).2).length = 1 ∧
      s.RestartsAnew .sample { enableEncryption := true } := by
  refine ⟨by decide, (restartsAnew_iff_startsClean Mbedtls.sample_decryptInvertsEncrypt
    Mbedtls.sample_encryptSucceeds sampleStream _ (by decide) (by decide)).mpr ?_⟩
  exact ⟨by decide, by decide, fun hplain => by cases hplain⟩

set_option maxRecDepth 100000 in
/-- After an encrypted stream, one in plaintext delivers nothing. -/
theorem not_restartsAnew_after_encryption :
    let s := (Machine.exec (step .sample) {} [.setCrypto (some .sample),
      .startSession { enableEncryption := true }, .stopSession]).1
    s.crashed = false ∧ (s.startSession {}).2.2 = true ∧ ¬ s.RestartsAnew .sample {} := by
  refine ⟨by decide, by decide, fun h => ?_⟩
  have hplain : (PacketHeader.ofBytes (samplePacket none)).isEncrypted = false := by decide
  have heq := h (probing (samplePacket none)) (by
    simp only [probing, List.forall_mem_cons]
    exact ⟨trivial, hplain, List.forall_mem_nil _⟩)
  exact absurd heq (by decide)

end VeyraSession

end VeyraCam
