import VeyraCam.Packet.Injection
import VeyraCam.Session.VeyraSession
import VeyraCam.Transport.Transport

/-! # No downgrade inside a session

The session with its sending side, which is armed together with the receiving
side. Whatever the order of calls, while an encrypted session streams or is
paused, both sides hold the session's current key, and plaintext is refused.
-/

namespace VeyraCam

/-- `StreamConfig` with the settings that have calls of their own. -/
structure SessionConfig extends StreamConfig where
  bitrateBps : UInt32 := 2500000
  preferredTransport : TransportType := .auto
  deriving DecidableEq, Repr

/-- `VeyraSession` with `packetizer_` and those settings. -/
structure DuplexSession where
  session : VeyraSession := {}
  packetizer : Packetizer
  bitrateBps : UInt32 := 2500000
  preferredTransport : TransportType := .auto

inductive DuplexEvent where
  | startSession (config : SessionConfig)
  | stopSession
  | pauseSession
  | resumeSession
  | setCrypto (crypto : Option SessionCrypto)
  | registerTransport (transport : Option ℕ)
  | updateBitrate (bitrateBps : UInt32)
  | setPreferredTransport (type : TransportType)
  | packet (transport : ℕ) (data : Bytes) (pushedAt poppedAt : ℤ)

inductive DuplexOutput where
  | session (output : SessionOutput)
  /-- The `SET_BITRATE` command. -/
  | setBitrate (bitrateBps : UInt32)
  /-- `AutoTransportManager::SetPreferredTransportMode`. -/
  | setPreferredTransportMode (mode : TransportType)

/-- What a start can do where there is a key: stream without it, refuse an unset one, or stream
with it. -/
theorem VeyraSession.startSession_cases {s : VeyraSession} {crypto : SessionCrypto}
    (hc : s.crypto = some crypto) (config : StreamConfig) :
    (config.enableEncryption = false ∧
      (s.startSession config).1 = { s with config, state := .streaming }) ∨
    (config.enableEncryption = true ∧ (s.startSession config).2.2 = false ∧
      (s.startSession config).1 = { s with config, state := .errorState }) ∨
    (config.enableEncryption = true ∧ (s.startSession config).2.2 = true ∧
      (s.startSession config).1 =
        { s with
          config, state := .streaming, reassembler := s.reassembler.setCrypto s.crypto }) := by
  unfold startSession setState
  dsimp only
  rw [hc]
  cases he : config.enableEncryption with
  | false => exact .inl ⟨rfl, rfl⟩
  | true =>
    cases hk : crypto.hasKeys with
    | false =>
      refine .inr (.inl ⟨rfl, ?_⟩)
      simp [hk]
    | true =>
      refine .inr (.inr ⟨rfl, ?_⟩)
      simp [hk]

def SessionEvent.isKeying : SessionEvent → Bool
  | .startSession _ | .setCrypto _ => true
  | _ => false

namespace VeyraSession

/-- The session is as before but for its media path, on which the key is the same, and is not
active unless it was. -/
structure Keeps (s s' : VeyraSession) : Prop where
  crashed : s'.crashed = s.crashed
  config : s'.config = s.config
  crypto : s'.crypto = s.crypto
  armed : s'.reassembler.crypto = s.reassembler.crypto
  active : s'.state = .streaming ∨ s'.state = .paused → s.state = .streaming ∨ s.state = .paused

theorem Keeps.refl (s : VeyraSession) : s.Keeps s := ⟨rfl, rfl, rfl, rfl, id⟩

theorem keeps_onPacket (lib : Mbedtls) (s : VeyraSession) (data : Bytes) (pushedAt poppedAt : ℤ) :
    s.Keeps (s.onPacket lib data pushedAt poppedAt).1 := by
  have harmed : (s.reassembler.pushPacket lib () data).state.crypto = s.reassembler.crypto :=
    s.reassembler.pushPacket_crypto () data
  rcases s.onPacket_cases lib data pushedAt poppedAt with ⟨_, _, -, -, -, -, hs⟩ | ⟨-, hs, -⟩
  · rw [hs]
    exact ⟨rfl, rfl, rfl, harmed, id⟩
  · rw [hs]
    exact ⟨rfl, rfl, rfl, harmed, id⟩

theorem keeps_step {lib : Mbedtls} {s : VeyraSession} {e : SessionEvent}
    (he : e.isKeying = false) : s.Keeps (s.step lib e).1 := by
  unfold step
  split_ifs
  · exact .refl s
  cases e with
  | startSession | setCrypto => cases he
  | stopSession =>
    unfold stopSession setState
    split_ifs
    · exact .refl s
    · exact ⟨rfl, rfl, rfl, rfl, by simp⟩
  | pauseSession =>
    unfold pauseSession setState
    split_ifs with hstate
    · exact ⟨rfl, rfl, rfl, rfl, fun _ => .inl hstate⟩
    · exact .refl s
  | resumeSession =>
    unfold resumeSession setState
    split_ifs with hstate
    · exact ⟨rfl, rfl, rfl, rfl, fun _ => .inr hstate⟩
    · exact .refl s
  | registerTransport => exact ⟨rfl, rfl, rfl, rfl, id⟩
  | packet transport data pushedAt poppedAt =>
    dsimp only
    split_ifs
    · exact keeps_onPacket lib s data pushedAt poppedAt
    · exact .refl s

end VeyraSession

namespace DuplexSession

def startSession (d : DuplexSession) (config : SessionConfig) :
    DuplexSession × List DuplexOutput :=
  let (session, outputs, started) := d.session.startSession config.toStreamConfig
  ({ session
     packetizer :=
       if config.enableEncryption && started then d.packetizer.setCrypto d.session.crypto
       else d.packetizer
     bitrateBps := config.bitrateBps
     preferredTransport := config.preferredTransport },
    (outputs.take 1).map .session ++
      .setPreferredTransportMode config.preferredTransport :: (outputs.drop 1).map .session)

def setCrypto (d : DuplexSession) (crypto : Option SessionCrypto) : DuplexSession :=
  { d with
    session := d.session.setCrypto crypto
    packetizer :=
      if crypto.isSome && d.session.config.enableEncryption && d.session.state ≠ .idle then
        d.packetizer.setCrypto crypto
      else d.packetizer }

def relay (lib : Mbedtls) (d : DuplexSession) (e : SessionEvent) :
    DuplexSession × List DuplexOutput :=
  let (session, outputs) := d.session.step lib e
  ({ d with session }, outputs.map .session)

/-- One event, until the process has crashed. -/
def step (lib : Mbedtls) (d : DuplexSession) (e : DuplexEvent) :
    DuplexSession × List DuplexOutput :=
  if d.session.crashed then (d, [])
  else match e with
    | .startSession config => d.startSession config
    | .stopSession => d.relay lib .stopSession
    | .pauseSession => d.relay lib .pauseSession
    | .resumeSession => d.relay lib .resumeSession
    | .setCrypto crypto => (d.setCrypto crypto, [])
    | .registerTransport transport => d.relay lib (.registerTransport transport)
    | .updateBitrate bitrateBps => ({ d with bitrateBps }, [.setBitrate bitrateBps])
    | .setPreferredTransport type =>
      ({ d with preferredTransport := type }, [.setPreferredTransportMode type])
    | .packet transport data pushedAt poppedAt =>
      d.relay lib (.packet transport data pushedAt poppedAt)

/-- The session streams or is paused, with encryption enabled. -/
def Secure (d : DuplexSession) : Prop :=
  (d.session.state = .streaming ∨ d.session.state = .paused) ∧
    d.session.config.enableEncryption = true

/-- There is a key, and while the session is to be secure both sides are armed with it. -/
structure Coupled (d : DuplexSession) : Prop where
  running : d.session.crashed = false
  present : d.session.crypto.isSome = true
  armed : d.Secure →
    d.packetizer.crypto = d.session.crypto ∧ d.session.reassembler.crypto = d.session.crypto

variable {lib : Mbedtls} {d d' : DuplexSession}

theorem Coupled.congr (h : d.Coupled) (hrunning : d'.session.crashed = d.session.crashed)
    (hcrypto : d'.session.crypto = d.session.crypto)
    (htx : d'.packetizer.crypto = d.packetizer.crypto)
    (hrx : d'.session.reassembler.crypto = d.session.reassembler.crypto)
    (hsecure : d'.Secure → d.Secure) : d'.Coupled where
  running := hrunning.trans h.running
  present := by rw [hcrypto]; exact h.present
  armed hs := by
    rw [htx, hrx, hcrypto]
    exact h.armed (hsecure hs)

theorem Coupled.startSession (h : d.Coupled) (config : SessionConfig) :
    (d.startSession config).1.Coupled := by
  obtain ⟨crypto, hcrypto⟩ := Option.isSome_iff_exists.mp h.present
  unfold DuplexSession.startSession
  dsimp only
  rcases VeyraSession.startSession_cases hcrypto config.toStreamConfig with
    ⟨hplain, hs⟩ | ⟨-, -, hs⟩ | ⟨henabled, hstarted, hs⟩ <;> rw [hs]
  · refine ⟨h.running, h.present, fun hsecure => ?_⟩
    cases hplain.symm.trans hsecure.2
  · -- the start is refused, and only the configuration has changed
    refine ⟨h.running, h.present, fun hsecure => ?_⟩
    rcases hsecure.1 with hstate | hstate <;> cases hstate
  · rw [henabled, hstarted]
    exact ⟨h.running, h.present, fun _ => ⟨rfl, rfl⟩⟩

theorem Coupled.setCrypto (h : d.Coupled) (crypto : SessionCrypto) :
    (d.setCrypto (some crypto)).Coupled := by
  unfold DuplexSession.setCrypto VeyraSession.setCrypto
  split_ifs with hset
  · exact ⟨h.running, rfl, fun _ => ⟨rfl, rfl⟩⟩
  · refine ⟨h.running, rfl, fun hsecure => absurd ?_ hset⟩
    have hidle : d.session.state ≠ .idle := by
      rcases hsecure.1 with hstate | hstate <;> exact fun hidle => by cases hstate.symm.trans hidle
    have henabled : d.session.config.enableEncryption = true := hsecure.2
    simp [henabled, hidle]

theorem Coupled.relay (h : d.Coupled) (lib : Mbedtls) {e : SessionEvent}
    (he : e.isKeying = false) : (d.relay lib e).1.Coupled := by
  have hkeeps : d.session.Keeps (d.session.step lib e).1 := VeyraSession.keeps_step he
  refine h.congr hkeeps.crashed hkeeps.crypto rfl hkeeps.armed fun hsecure => ?_
  have hconfig := congrArg (·.enableEncryption) hkeeps.config
  exact ⟨hkeeps.active hsecure.1, hconfig.symm.trans hsecure.2⟩

theorem Coupled.step (h : d.Coupled) {e : DuplexEvent} (he : e ≠ .setCrypto none) :
    (d.step lib e).1.Coupled := by
  unfold DuplexSession.step
  rw [if_neg (by simp [h.running])]
  cases e with
  | startSession config => exact h.startSession config
  | setCrypto crypto =>
    cases crypto with
    | none => exact absurd rfl he
    | some crypto => exact h.setCrypto crypto
  | stopSession | pauseSession | resumeSession | registerTransport | packet =>
    exact h.relay lib rfl
  | updateBitrate | setPreferredTransport => exact h.congr rfl rfl rfl rfl id

/-- A packet without the flag is refused, and a session it arrives at is as before. -/
def RefusesPlaintext (lib : Mbedtls) (d : DuplexSession) : Prop :=
  ∀ (data : Bytes), (∀ header ∈ deserializeHeader data, header.isEncrypted = false) →
    (d.session.reassembler.pushPacket lib () data).accepted = false ∧
      (d.session.reassembler.pushPacket lib () data).state = d.session.reassembler ∧
      ∀ transport pushedAt poppedAt,
        (d.step lib (.packet transport data pushedAt poppedAt)).1 = d

theorem refusesPlaintext_of_armed {crypto : SessionCrypto}
    (h : d.session.reassembler.crypto = some crypto) : d.RefusesPlaintext lib := by
  intro data hplain
  have hclosed : FrameReassembler.openPacket lib d.session.reassembler.crypto data = none := by
    rw [h]
    cases hd : deserializeHeader data with
    | none => exact Injectable.openPacket (.malformed hd)
    | some header => exact Injectable.openPacket (.plaintext hd (hplain header hd))
  have hpush : d.session.reassembler.pushPacket lib () data =
      ⟨false, d.session.reassembler, []⟩ := by
    rw [FrameReassembler.pushPacket, hclosed]
  refine ⟨by rw [hpush], by rw [hpush], fun transport pushedAt poppedAt => ?_⟩
  have hpacket : d.session.onPacket lib data pushedAt poppedAt = (d.session, []) := by
    rw [VeyraSession.onPacket, hpush]
    rfl
  unfold step relay VeyraSession.step
  dsimp only
  rw [hpacket]
  split_ifs <;> rfl

/-- In every run, while the session streams or is paused with encryption enabled, both sides are
armed with its current key, and plaintext is refused. -/
theorem no_downgrade (lib : Mbedtls) (sessionId : UInt32) {events : List DuplexEvent}
    (hevents : .setCrypto none ∉ events) :
    let d := (Machine.exec (step lib) { packetizer := { sessionId } } events).1
    d.Secure → ∃ crypto, d.session.crypto = some crypto ∧ d.packetizer.crypto = some crypto ∧
      d.session.reassembler.crypto = some crypto ∧ d.RefusesPlaintext lib := by
  intro d hsecure
  have hcoupled : d.Coupled := by
    have hguarded : Machine.Guarded (step lib) (fun _ e => e ≠ .setCrypto none)
        { packetizer := { sessionId } } events :=
      Machine.guarded_of_forall (fun e he => ne_of_mem_of_not_mem he hevents) _
    refine (hguarded.invariant (I := Coupled) (P := fun _ => True) (fun d e h he => ?_) ?_).1
    · exact ⟨h.step he, fun _ _ => trivial⟩
    · exact ⟨rfl, rfl, fun hsecure => by rcases hsecure.1 with hs | hs <;> cases hs⟩
  obtain ⟨crypto, hcrypto⟩ := Option.isSome_iff_exists.mp hcoupled.present
  obtain ⟨htx, hrx⟩ := hcoupled.armed hsecure
  rw [hcrypto] at htx hrx
  exact ⟨crypto, hcrypto, htx, hrx, refusesPlaintext_of_armed hrx⟩

def sampleEvents : List DuplexEvent :=
  [.registerTransport (some 0), .setCrypto (some .sample),
    .startSession { enableEncryption := true }, .updateBitrate 1000000,
    .packet 0 (samplePacket (some .sample)) 0 20000000, .pauseSession,
    .packet 0 (samplePacket none) 0 0]

set_option maxRecDepth 100000 in
theorem no_downgrade_sample :
    let d := (Machine.exec (step .sample) { packetizer := { sessionId := 7 } } sampleEvents).1
    d.session.reassembler.waitingForKeyframe = false ∧
      ∃ crypto, d.session.crypto = some crypto ∧ d.packetizer.crypto = some crypto ∧
        d.session.reassembler.crypto = some crypto ∧ d.RefusesPlaintext .sample :=
  ⟨by decide, no_downgrade .sample 7 (by simp [sampleEvents]) ⟨.inr (by decide), by decide⟩⟩

end DuplexSession

end VeyraCam
