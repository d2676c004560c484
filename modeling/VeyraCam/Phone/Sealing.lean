import VeyraCam.Packet.Transmission
import VeyraCam.Phone.UdpTransport

/-! # No plaintext media

A packetizer without keys sends plaintext, but the socket is only opened on a
connection whose pairing has armed the packetizer, and the keys it is armed
with are not changed while it holds them.
-/

namespace VeyraCam

/-- The packet is flagged as encrypted, and its payload was sealed with the keys under the
sequence number and the bytes of its header. -/
def SealedBy (lib : Mbedtls) (crypto : SessionCrypto) (packet : Bytes) : Prop :=
  let header := PacketHeader.ofBytes packet
  header.isEncrypted = true ∧ ∃ payload sealed,
    crypto.encrypt lib payload header.sequence header.bytes = some sealed ∧
      packet = header.bytes ++ sealed

variable {lib : Mbedtls} {crypto : SessionCrypto}

namespace Packetizer

variable {p : Packetizer}

theorem sealedBy_of_sendPacket (hc : p.crypto = some crypto) {header : PacketHeader}
    (he : header.isEncrypted = true) (hs : header.sequence = p.packetSequence) {payload : Buffer}
    {packet : Bytes} (h : (p.sendPacket lib header payload).2.packet = some packet) :
    SealedBy lib crypto packet := by
  rw [sendPacket, hc] at h
  obtain ⟨sealed, hsealed, rfl⟩ := Option.map_eq_some_iff.mp h
  unfold SealedBy
  dsimp only
  rw [PacketHeader.ofBytes_bytes_append, hs]
  exact ⟨he, payload, sealed, hsealed, rfl⟩

theorem videoHeader_isEncrypted (hc : p.crypto = some crypto) (frameId : UInt32)
    (timestampUs : UInt64) (isKeyframe : Bool) (fragmentIndex fragmentCount : UInt16) (size : ℕ) :
    (p.videoHeader frameId timestampUs isKeyframe fragmentIndex fragmentCount size).isEncrypted =
      true :=
  (wireFlags_encrypted p isKeyframe).trans (by rw [hc]; rfl)

theorem audioHeader_isEncrypted (hc : p.crypto = some crypto) (frameId : UInt32)
    (timestampUs : UInt64) (size : ℕ) :
    (p.audioHeader frameId timestampUs size).isEncrypted = true :=
  (wireFlags_audio_encrypted p).trans (by rw [hc]; rfl)

theorem sealedBy_of_call (hc : p.crypto = some crypto) {k : Call} {packet : Bytes}
    (h : packet ∈ packets (p.call lib k).2) : SealedBy lib crypto packet := by
  obtain ⟨a, ha, hpacket⟩ := List.mem_filterMap.mp h
  cases k with
  | video frameData frameId timestampUs isKeyframe =>
    obtain ⟨-, -, i, -, rfl⟩ := p.mem_packetizeFrame_iff.mp ha
    have hc : (p.advance i).crypto = some crypto := hc
    exact sealedBy_of_sendPacket hc (videoHeader_isEncrypted hc ..) rfl hpacket
  | audio audioData frameId timestampUs =>
    obtain ⟨-, rfl⟩ := p.mem_packetizeAudio ha
    exact sealedBy_of_sendPacket hc (audioHeader_isEncrypted hc ..) rfl hpacket

end Packetizer

namespace NativeSender

variable {s : NativeSender}

/-- A send is at most one call on the packetizer. -/
theorem send_cases (lib : Mbedtls) (s : NativeSender) (k : Send) :
    (s.send lib k = (s, [])) ∨
      ∃ call, (s.send lib k).1.packetizer = (s.packetizer.call lib call).1 ∧
        (s.send lib k).2 = (s.packetizer.call lib call).2 := by
  cases k with
  | videoNal nalData isKeyframe timestampUs =>
    simp only [send, sendVideoNal]
    split_ifs
    · exact .inl rfl
    · exact .inr ⟨.video nalData (s.frameCounter + 1) timestampUs isKeyframe, rfl, rfl⟩
  | audioFrame audioData timestampUs =>
    simp only [send, sendAudioFrame]
    split_ifs
    · exact .inl rfl
    · exact .inr ⟨.audio audioData (s.audioCounter + 1) timestampUs, rfl, rfl⟩

theorem crypto_send (lib : Mbedtls) (s : NativeSender) (k : Send) :
    (s.send lib k).1.packetizer.crypto = s.packetizer.crypto := by
  rcases s.send_cases lib k with h | ⟨call, h, -⟩
  · rw [h]
  · rw [h, Packetizer.crypto_call]

theorem sealedBy_of_send (hc : s.packetizer.crypto = some crypto) {k : Send} {packet : Bytes}
    (h : packet ∈ packets (s.send lib k).2) : SealedBy lib crypto packet := by
  rcases s.send_cases lib k with hk | ⟨call, -, hk⟩
  · rw [hk] at h
    cases h
  · rw [hk] at h
    exact Packetizer.sealedBy_of_call hc h

end NativeSender

namespace NativeSenderContext

variable {c : NativeSenderContext}

theorem mem_packets_of_mem_payloads {call : Send} {attempts : List Packetizer.Attempt}
    {payload : Bytes} (h : payload ∈ payloads call attempts) (hne : payload ≠ []) :
    payload ∈ packets attempts := by
  unfold payloads at h
  split at h
  · exact h
  · split_ifs at h
    · cases h
    · obtain rfl := List.mem_singleton.mp h
      cases hp : packets attempts with
      | nil => rw [hp] at hne; exact absurd rfl hne
      | cons packet rest => exact List.mem_cons_self

theorem sealedBy_of_send (hc : c.sender.packetizer.crypto = some crypto) {call : Send}
    {d : Datagram} (h : d ∈ (c.send lib call).2) (hne : d.payload ≠ []) :
    SealedBy lib crypto d.payload := by
  unfold send at h
  dsimp only at h
  split_ifs at h
  · obtain ⟨payload, hpayload, rfl⟩ := List.mem_map.mp h
    exact NativeSender.sealedBy_of_send hc (mem_packets_of_mem_payloads hpayload hne)
  · cases h

end NativeSenderContext

namespace Phone

variable {env : Android} {s : Phone}

/-- The invariant: the packetizer only holds derived keys, and has some wherever the socket is
open or may be opened; the keys that a pairing under way would overwrite are not those. -/
structure Armed (s : Phone) : Prop where
  derived : ∀ crypto, s.context.sender.packetizer.crypto = some crypto →
    crypto ∈ s.context.derived
  socket : s.context.udpSocket = true → s.context.sender.packetizer.crypto.isSome = true
  authenticated : ∀ c, s.connection = some c → c.authenticated = true →
    s.context.sender.packetizer.crypto.isSome = true
  configuring : ∀ c, s.connection = some c → c.stage = .configuring → c.authenticated = true
  completing : ∀ c key, s.connection = some c → c.stage = .completing key →
    c.authenticated = false
  pairing : ∀ c, s.connection = some c → c.authenticated = false → s.context.shared = false

theorem Armed.manager (h : Armed s) (p : PairingManager) :
    Armed { s with pairingManager := p } :=
  ⟨h.derived, h.socket, h.authenticated, h.configuring, h.completing, h.pairing⟩

theorem Armed.stage (h : Armed s) {c : Connection} (hc : s.connection = some c) {stage : Stage}
    (hs : stage ≠ .configuring) (hk : ∀ key, stage = .completing key → c.authenticated = false) :
    Armed { s with connection := some { c with stage } } := by
  constructor
  · exact h.derived
  · exact h.socket
  · rintro _ ⟨⟩ ha
    exact h.authenticated c hc ha
  · rintro _ ⟨⟩ hconf
    exact absurd hconf hs
  · rintro _ key ⟨⟩ hkey
    exact hk key hkey
  · rintro _ ⟨⟩ ha
    exact h.pairing c hc ha

theorem armed_of_complete {c : Connection} {clientPubKey : Text} {context : NativeSenderContext}
    (hk : s.context.completePairing env.lib clientPubKey = (context, true)) :
    Armed { s with
      context
      connection := some { c with authenticated := true, stage := .configuring } } := by
  rcases @NativeSenderContext.completePairing_cases env.lib s.context clientPubKey with
    hk' | ⟨clientPub, -, hk', -⟩ | ⟨clientPub, crypto, -, -, hk'⟩ <;> rw [hk'] at hk
  · cases hk
  · cases hk
  · obtain ⟨rfl, -⟩ := Prod.mk.inj hk
    constructor
    · rintro _ ⟨⟩
      exact List.mem_append_right _ List.mem_cons_self
    · exact fun _ => rfl
    · exact fun _ _ _ => rfl
    · rintro _ ⟨⟩ _
      rfl
    · rintro _ key ⟨⟩ hkey
      cases hkey
    · rintro _ ⟨⟩ ha
      cases ha

theorem Armed.failToComplete (h : Armed s) {clientPubKey : Text} {context : NativeSenderContext}
    (hshared : s.context.shared = false)
    (hk : s.context.completePairing env.lib clientPubKey = (context, false)) :
    Armed { s with context } := by
  rcases @NativeSenderContext.completePairing_cases env.lib s.context clientPubKey with
    hk' | ⟨clientPub, -, hk', -⟩ | ⟨clientPub, crypto, -, -, hk'⟩ <;> rw [hk'] at hk
  · obtain ⟨rfl, -⟩ := Prod.mk.inj hk
    exact h
  · obtain ⟨rfl, -⟩ := Prod.mk.inj hk
    have hw : s.context.withShared {} = s.context := by
      unfold NativeSenderContext.withShared
      simp [hshared]
    rw [hw]
    exact ⟨h.derived, h.socket, h.authenticated, h.configuring, h.completing, fun _ _ _ => rfl⟩
  · cases hk

theorem Armed.configure (h : Armed s) {c : Connection} (hc : s.connection = some c)
    (hconf : c.stage = .configuring) (host : Text) (port : UInt16) (socketOk : Bool) :
    Armed { s with context := (s.context.configureUdp env.inetPton host port socketOk).1 } := by
  have hkeyed := h.authenticated c hc (h.configuring c hc hconf)
  unfold NativeSenderContext.configureUdp
  cases socketOk with
  | false => exact ⟨h.derived, by simp [NativeSenderContext.closeUdp], h.authenticated,
      h.configuring, h.completing, h.pairing⟩
  | true =>
    cases env.inetPton host with
    | none => exact ⟨h.derived, by simp [NativeSenderContext.closeUdp], h.authenticated,
        h.configuring, h.completing, h.pairing⟩
    | some address => exact ⟨h.derived, fun _ => hkeyed, h.authenticated, h.configuring,
        h.completing, h.pairing⟩

theorem Armed.send (h : Armed s) (call : Send) :
    Armed { s with context := (s.context.send env.lib call).1 } := by
  have hcrypto := NativeSender.crypto_send env.lib s.context.sender call
  constructor
  · intro crypto hc
    exact h.derived crypto (hcrypto.symm.trans hc)
  · intro hsocket
    exact (congrArg Option.isSome hcrypto).trans (h.socket hsocket)
  · intro c hc ha
    exact (congrArg Option.isSome hcrypto).trans (h.authenticated c hc ha)
  · exact h.configuring
  · exact h.completing
  · exact h.pairing

theorem Armed.transition (h : Armed s) {e : PhoneEvent} {s' : Phone}
    {outputs : List PhoneOutput} (ht : Transition env s e s' outputs) : Armed s' := by
  cases ht with
  | idle => exact h
  | refuse => exact h
  | accept =>
    constructor
    · exact h.derived
    · exact h.socket
    · rintro _ ⟨⟩ ha
      cases ha
    · rintro _ ⟨⟩ hconf
      cases hconf
    · rintro _ key ⟨⟩ hkey
      cases hkey
    · exact fun _ _ _ => rfl
  | verify hr =>
    refine (h.stage hr.connection ?_ ?_).manager _
    · exact Stage.noConfusion
    · exact fun _ _ => hr.unauthenticated
  | verifyWithoutKey => exact h.manager _
  | wrongPin => exact h.manager _
  | lockedOut hr => exact h.stage hr.connection Stage.noConfusion fun _ hk => by cases hk
  | notAwaiting => exact h.manager _
  | command => exact h
  | hangup hc => exact h.stage hc Stage.noConfusion fun _ hk => by cases hk
  | complete _ _ hk => exact armed_of_complete hk
  | failToComplete hc hcompleting hk =>
    have hshared := h.pairing _ hc (h.completing _ _ hc hcompleting)
    exact (h.failToComplete hshared hk).stage hc Stage.noConfusion fun _ hk => by cases hk
  | configure hc hconf =>
    exact (h.configure hc hconf _ _ _).stage hc Stage.noConfusion fun _ hk => by cases hk
  | leave => exact ⟨h.derived, h.socket, by simp, by simp, by simp, by simp⟩
  | send => exact h.send _
  | tick => exact ⟨h.derived, h.socket, h.authenticated, h.configuring, h.completing, h.pairing⟩

theorem armed_after (env : Android) (sessionId : UInt32) (events : List PhoneEvent) :
    Armed (Machine.exec (step env) (create sessionId) events).1 := by
  apply Machine.invariant (I := Armed)
  · exact fun s e h => h.transition (transition_step s e)
  · exact ⟨by simp [create, NativeSenderContext.create],
      by simp [create, NativeSenderContext.create], by simp [create], by simp [create],
      by simp [create], by simp [create]⟩

/-- Every datagram of every run, unless it is empty, is sealed with keys that a successful
`CompletePairing` derived. -/
theorem datagram_sealed (env : Android) (sessionId : UInt32) (events : List PhoneEvent)
    (e : PhoneEvent) {d : Datagram} {during : Option Connection}
    (hd : .datagram d during ∈
      ((Machine.exec (step env) (create sessionId) events).1.step env e).2)
    (hne : d.payload ≠ []) :
    ∃ crypto ∈ (Machine.exec (step env) (create sessionId) events).1.context.derived,
      SealedBy env.lib crypto d.payload := by
  have h := armed_after env sessionId events
  obtain ⟨call, -, hd, -⟩ := (transition_step _ e).of_datagram hd
  have hopen := (NativeSenderContext.of_mem_send hd).1
  obtain ⟨crypto, hcrypto⟩ := Option.isSome_iff_exists.mp (h.socket hopen)
  exact ⟨crypto, h.derived crypto hcrypto,
    NativeSenderContext.sealedBy_of_send hcrypto hd hne⟩

set_option maxRecDepth 100000 in
theorem datagram_sealed_sample :
    let s := (Machine.exec (step .sample) (create 7) (sampleVisit "10.0.0.9" ["000000"])).1
    ∃ d during, .datagram d during ∈ (s.step .sample (.send (.audioFrame (.data [1, 2]) 5))).2 ∧
      ∃ crypto ∈ s.context.derived, SealedBy .sample crypto d.payload := by
  intro s
  obtain ⟨d, during, hd, hne⟩ : ∃ d during, .datagram d during ∈
      (s.step .sample (.send (.audioFrame (.data [1, 2]) 5))).2 ∧ d.payload ≠ [] :=
    ⟨_, _, List.mem_cons_self, by decide⟩
  exact ⟨d, during, hd, datagram_sealed .sample 7 _ _ hd hne⟩

end Phone

end VeyraCam
