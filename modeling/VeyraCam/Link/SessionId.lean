import Mathlib.Data.List.TakeWhile
import VeyraCam.Library.JsonText
import VeyraCam.Link.Lines
import VeyraCam.Phone.Sealing

/-! # The announced session

The phone passes its session id on as a signed number and prints it in decimal,
and the desktop reads the text as an unsigned one. Half of all ids have a minus on
the way, which `std::stoul` takes from 2 to the width of its type; the cast to 32
bits gives the id again.
-/

namespace VeyraCam

/-! ## Decimal text -/

theorem takeWhile_isDigit_toDigits (m : ℕ) :
    (Nat.toDigits 10 m).takeWhile Char.isDigit = Nat.toDigits 10 m := by
  rw [List.takeWhile_eq_self_iff]
  exact JsonText.isDigit_of_mem_toDigits

theorem foldl_toDigits (m : ℕ) :
    (Nat.toDigits 10 m).foldl (fun n c => 10 * n + (c.toNat - 48)) 0 = m :=
  Nat.ofDigitChars_ten_toDigits

theorem ne_of_isDigit {c d : Char} (h : c.isDigit = true) (hd : d.isDigit = false) : c ≠ d := by
  rintro rfl
  cases h.symm.trans hd

theorem isSpace_of_isDigit {c : Char} (h : c.isDigit = true) : isSpace c = false := by
  simp only [Char.isDigit, Bool.and_eq_true, decide_eq_true_eq, UInt32.le_iff_toNat_le] at h
  have hlow : 48 ≤ c.toNat := h.1
  simp only [isSpace, Bool.or_eq_false_iff, decide_eq_false_iff_not, Bool.and_eq_false_iff]
  omega

theorem stoul_toDigits {bits m : ℕ} (h : m < 2 ^ bits) :
    stoul bits (Nat.toDigits 10 m) = some m := by
  obtain ⟨c, ds, hdigits⟩ := List.exists_cons_of_ne_nil (Nat.toDigits_ne_nil (b := 10) (n := m))
  have hc : c.isDigit = true :=
    JsonText.isDigit_of_mem_toDigits c (hdigits ▸ List.mem_cons_self)
  have hminus : c ≠ .ofNat 45 := ne_of_isDigit hc (by decide)
  have hsign : "+-".toList.contains c = false := by
    have hplus : c ≠ '+' := ne_of_isDigit hc (by decide)
    have hminus : c ≠ '-' := hminus
    simp [hplus, hminus]
  unfold stoul
  rw [hdigits, List.dropWhile_cons_of_neg (by simp [isSpace_of_isDigit hc])]
  simp only [List.head?_cons, Option.any_some, hsign, Bool.false_eq_true, if_false]
  rw [← hdigits, takeWhile_isDigit_toDigits, foldl_toDigits, if_neg (by simp [hdigits, h])]
  simp [hminus]

theorem stoul_minus_toDigits {bits m : ℕ} (h : m < 2 ^ bits) :
    stoul bits ('-' :: Nat.toDigits 10 m) = some ((2 ^ bits - m) % 2 ^ bits) := by
  have hspace : isSpace '-' = false := by decide
  have hsign : "+-".toList.contains '-' = true := by decide
  have hne : (Nat.toDigits 10 m).isEmpty = false := by simp [Nat.toDigits_ne_nil]
  unfold stoul
  rw [List.dropWhile_cons_of_neg (by simp [hspace])]
  simp only [List.head?_cons, Option.any_some, hsign, if_true, List.tail_cons]
  rw [takeWhile_isDigit_toDigits, foldl_toDigits, if_neg (by simp [hne, h])]

/-- A number survives being printed as a signed one of 32 bits and read back, where `unsigned long`
is no narrower. -/
theorem ofNat_stoul_toInt32 {bits : ℕ} (hbits : bits = 32 ∨ bits = 64) (n : UInt32) :
    UInt32.ofNat ((stoul bits (toString n.toInt32.toInt).toList).getD 0) = n := by
  have hlt := n.toNat_lt
  have hsigned : n.toInt32.toInt =
      if 2 * n.toNat < 2 ^ 32 then (n.toNat : ℤ) else n.toNat - 2 ^ 32 :=
    BitVec.toInt_eq_toNat_cond n.toBitVec
  split_ifs at hsigned with hhalf
  · have htext : (toString (n.toNat : ℤ)).toList = Nat.toDigits 10 n.toNat := Nat.toList_repr
    have hread : n.toNat < 2 ^ bits := by
      rcases hbits with rfl | rfl <;> omega
    rw [hsigned, htext, stoul_toDigits hread, Option.getD_some, UInt32.ofNat_toNat]
  · -- half of the ids come with a minus
    obtain ⟨m, hm⟩ : ∃ m : ℕ, n.toNat + (m + 1) = 2 ^ 32 := ⟨2 ^ 32 - n.toNat - 1, by omega⟩
    have hnegative : n.toInt32.toInt = Int.negSucc m := by omega
    have hread : m + 1 < 2 ^ bits := by
      rcases hbits with rfl | rfl <;> omega
    rw [hnegative, JsonText.toList_toString_negSucc, stoul_minus_toDigits hread, Option.getD_some,
      ← UInt32.toNat_inj, UInt32.toNat_ofNat']
    rcases hbits with rfl | rfl <;> omega

/-! ## The phone's side -/

namespace Packetizer

variable {lib : Mbedtls} {p : Packetizer}

theorem ofBytes_of_sendPacket {header : PacketHeader} {payload : Buffer} {packet : Bytes}
    (h : (p.sendPacket lib header payload).2.packet = some packet) :
    PacketHeader.ofBytes packet = header := by
  unfold sendPacket at h
  cases hc : p.crypto with
  | none =>
    rw [hc] at h
    obtain rfl := Option.some.inj h
    exact header.ofBytes_bytes_append _
  | some crypto =>
    rw [hc] at h
    obtain ⟨sealed, -, rfl⟩ := Option.map_eq_some_iff.mp h
    exact header.ofBytes_bytes_append sealed

theorem sessionId_of_call {k : Call} {packet : Bytes} (h : packet ∈ packets (p.call lib k).2) :
    (PacketHeader.ofBytes packet).sessionId = p.sessionId := by
  obtain ⟨a, ha, hpacket⟩ := List.mem_filterMap.mp h
  cases k with
  | video frameData frameId timestampUs isKeyframe =>
    obtain ⟨-, -, i, -, rfl⟩ := p.mem_packetizeFrame_iff.mp ha
    rw [ofBytes_of_sendPacket hpacket]
    rfl
  | audio audioData frameId timestampUs =>
    obtain ⟨-, rfl⟩ := p.mem_packetizeAudio ha
    rw [ofBytes_of_sendPacket hpacket]
    rfl

end Packetizer

namespace NativeSenderContext

variable {lib : Mbedtls} {c : NativeSenderContext}

def getSessionId (c : NativeSenderContext) : UInt32 := c.sender.packetizer.sessionId

theorem getSessionId_completePairing {context : NativeSenderContext} {clientPubKey : Text}
    {completed : Bool} (h : c.completePairing lib clientPubKey = (context, completed)) :
    context.getSessionId = c.getSessionId := by
  have hshared (crypto : SessionCrypto) : (c.withShared crypto).getSessionId = c.getSessionId := by
    unfold withShared
    split_ifs <;> rfl
  rcases @completePairing_cases lib c clientPubKey with
    hc | ⟨clientPub, -, hc, -⟩ | ⟨clientPub, crypto, -, -, hc⟩ <;> rw [hc] at h <;>
    obtain ⟨rfl, -⟩ := Prod.mk.inj h
  · rfl
  · exact hshared {}
  · rfl

theorem getSessionId_send (lib : Mbedtls) (c : NativeSenderContext) (call : Send) :
    (c.send lib call).1.getSessionId = c.getSessionId := by
  change (c.sender.send lib call).1.packetizer.sessionId = _
  rcases c.sender.send_cases lib call with h | ⟨k, h, -⟩
  · rw [h]
    rfl
  · rw [h, Packetizer.sessionId_call]
    rfl

theorem sessionId_of_mem_send {call : Send} {d : Datagram} (h : d ∈ (c.send lib call).2)
    {header : PacketHeader} (hheader : deserializeHeader d.payload = some header) :
    header.sessionId = c.getSessionId := by
  obtain ⟨hlength, rfl, -⟩ := deserializeHeader_eq_some_iff.mp hheader
  unfold send at h
  dsimp only at h
  split_ifs at h
  · obtain ⟨payload, hpayload, rfl⟩ := List.mem_map.mp h
    have hne : payload ≠ [] := by
      rintro rfl
      have hzero : headerSize ≤ 0 := hlength
      exact absurd hzero (by decide)
    have hpacket := mem_packets_of_mem_payloads hpayload hne
    rcases c.sender.send_cases lib call with hk | ⟨k, -, hk⟩
    · rw [hk] at hpacket
      cases hpacket
    · rw [hk] at hpacket
      exact Packetizer.sessionId_of_call hpacket
  · cases h

end NativeSenderContext

def announcedId (env : Platform) (message : Text) : UInt32 :=
  .ofNat ((stoul env.ulongBits (extractJsonString message "session_id".toList)).getD 0)

def IsChallenge (message : Text) : Prop :=
  extractJsonString message "type".toList = "pairing_challenge".toList

instance (message : Text) : Decidable (IsChallenge message) := inferInstanceAs (Decidable (_ = _))

namespace Phone

variable {env : Platform} {android : Android} {s : Phone} {session : UInt32}

theorem announcedId_pairingChallenge (hbits : env.ulongBits = 32 ∨ env.ulongBits = 64)
    (key : FixedBytes 32) (session : UInt32) :
    announcedId env (pairingChallenge (Base64.encode key.toList) session) = session := by
  have htext : extractJsonString (pairingChallenge (Base64.encode key.toList) session)
      "session_id".toList = (toString session.toInt32.toInt).toList := by
    rw [pairingChallenge_eq]
    exact (readable_pairingChallenge key session).extractJsonString_literal
      (List.mem_cons_of_mem _ (List.mem_cons_of_mem _ List.mem_cons_self))
      (Command.isLiteral_number _)
  rw [announcedId, htext, ofNat_stoul_toInt32 hbits]

/-- What a phone sends in a session: challenges that announce it, and packets of it. -/
def Announces (env : Platform) (session : UInt32) : PhoneOutput → Prop
  | .message text => IsChallenge text → announcedId env text = session
  | .datagram d _ => ∀ header, deserializeHeader d.payload = some header →
    header.sessionId = session
  | _ => True

theorem announces_of_type {type : Text} (hplain : type.any isEscaped = false)
    (hne : type ≠ "pairing_challenge".toList) (fields : List (Text × JsonValue)) :
    Announces env session
      (.message (jsonToString (("type".toList, .string type) :: fields))) := by
  intro hchallenge
  rw [IsChallenge, VeyraCam.extractJsonString_type hplain] at hchallenge
  exact absurd hchallenge hne

theorem Transition.announces (hb : android.lib.Base64Standard)
    (hbits : env.ulongBits = 32 ∨ env.ulongBits = 64) {e : PhoneEvent} {s' : Phone}
    {outputs : List PhoneOutput} (ht : Transition android s e s' outputs) :
    s'.context.getSessionId = s.context.getSessionId ∧
      ∀ o ∈ outputs, Announces env s.context.getSessionId o := by
  have herror (reason : String) : ∀ o ∈ [.message (pairingError reason)],
      Announces env s.context.getSessionId o :=
    List.forall_mem_singleton.mpr (announces_of_type (by decide) (by decide) _)
  cases ht with
  | idle => exact ⟨rfl, List.forall_mem_nil _⟩
  | refuse => exact ⟨rfl, herror _⟩
  | @accept clientIp digits keys =>
    refine ⟨rfl, List.forall_mem_cons.mpr ⟨trivial, List.forall_mem_singleton.mpr fun _ => ?_⟩⟩
    rw [hb.base64Encode]
    exact announcedId_pairingChallenge hbits keys.publicKey _
  | verify => exact ⟨rfl, List.forall_mem_nil _⟩
  | verifyWithoutKey => exact ⟨rfl, herror _⟩
  | wrongPin => exact ⟨rfl, herror _⟩
  | lockedOut => exact ⟨rfl, herror _⟩
  | notAwaiting => exact ⟨rfl, List.forall_mem_nil _⟩
  | command =>
    refine ⟨rfl, List.forall_mem_cons.mpr ⟨trivial, ?_⟩⟩
    unfold handleControlCommand
    split_ifs
    · exact List.forall_mem_singleton.mpr (announces_of_type (by decide) (by decide) _)
    · exact List.forall_mem_nil _
  | hangup => exact ⟨rfl, List.forall_mem_nil _⟩
  | complete _ _ hk =>
    exact ⟨NativeSenderContext.getSessionId_completePairing hk,
      List.forall_mem_singleton.mpr (announces_of_type (by decide) (by decide) _)⟩
  | failToComplete _ _ hk =>
    exact ⟨NativeSenderContext.getSessionId_completePairing hk,
      List.forall_mem_cons.mpr ⟨trivial, herror _⟩⟩
  | configure =>
    refine ⟨?_, List.forall_mem_nil _⟩
    rw [NativeSenderContext.getSessionId, (NativeSenderContext.configureUdp_crypto ..).2]
    rfl
  | leave => exact ⟨rfl, List.forall_mem_nil _⟩
  | send =>
    refine ⟨NativeSenderContext.getSessionId_send _ _ _, fun o ho => ?_⟩
    obtain ⟨d, hd, rfl⟩ := List.mem_map.mp ho
    exact fun header hheader => NativeSenderContext.sessionId_of_mem_send hd hheader
  | tick => exact ⟨rfl, List.forall_mem_nil _⟩

/-- A run of the phone announces the session of its native session and sends in no other. -/
theorem announces_exec (hb : android.lib.Base64Standard)
    (hbits : env.ulongBits = 32 ∨ env.ulongBits = 64) (session : UInt32)
    (events : List PhoneEvent) :
    ∀ o ∈ (Machine.exec (step android) (create session) events).2, Announces env session o := by
  have hstep (s : Phone) (e : PhoneEvent) (hs : s.context.getSessionId = session) :
      (s.step android e).1.context.getSessionId = session ∧
        ∀ o ∈ (s.step android e).2, Announces env session o := by
    obtain ⟨hsame, houtputs⟩ := (transition_step s e).announces hb hbits
    rw [hs] at houtputs
    exact ⟨hsame.trans hs, houtputs⟩
  have hguarded : Machine.Guarded (step android) (fun _ _ => True) (create session) events :=
    Machine.guarded_of_forall (fun _ _ => trivial) (create session)
  exact (hguarded.invariant (fun s e hs _ => hstep s e hs) rfl).2

end Phone

/-! ## The desktop's side -/

namespace FrameReassembler

variable {ω : Type*} {lib : Mbedtls} {session : UInt32} {r : FrameReassembler ω}

def LockedTo (session : UInt32) (r : FrameReassembler ω) : Prop :=
  r.sessionLocked = true ∧ r.expectedSessionId = session

/-- Of the packets that open, those of the session are accepted, as far as they are new and
wanted, and no others. -/
def Enforces (lib : Mbedtls) (session : UInt32) (r : FrameReassembler ω) : Prop :=
  ∀ origin packetData header payload, openPacket lib r.crypto packetData = some (header, payload) →
    ((r.pushPacket lib origin packetData).accepted = true ↔ header.sessionId = session ∧
      (r.replayFilter.accept header.sequence).1 = true ∧ r.Wants header)

theorem storeFragment_accepted (r : FrameReassembler ω) (origin : ω) (header : PacketHeader)
    (payload : Bytes) : (r.storeFragment origin header payload).accepted = true := by
  rcases r.storeFragment_cases origin header payload rfl with ⟨-, h⟩ | ⟨-, h⟩ <;> rw [h]

theorem acceptPacket_accepted_iff (r : FrameReassembler ω) (origin : ω) (header : PacketHeader)
    (payload : Bytes) :
    (r.acceptPacket origin header payload).accepted = true ↔ r.Admits header ∧ r.Wants header := by
  rcases r.acceptPacket_cases origin header payload with
    ⟨hf, h⟩ | ⟨-, hl, hne, h⟩ | ⟨-, hw, h⟩ | ⟨ha, hw, h⟩ <;> rw [h]
  · simp [Admits, hf]
  · simp [Admits, hl, hne]
  · simp [hw]
  · exact iff_of_true (storeFragment_accepted ..) ⟨ha, hw⟩

theorem LockedTo.enforces (h : r.LockedTo session) : r.Enforces lib session := by
  intro origin packetData header payload hopen
  rw [pushPacket_of_some hopen, acceptPacket_accepted_iff, Admits, h.2]
  constructor
  · rintro ⟨⟨hfresh, hsession⟩, hwants⟩
    exact ⟨hsession h.1, hfresh, hwants⟩
  · rintro ⟨hsession, hfresh, hwants⟩
    exact ⟨⟨hfresh, fun _ => hsession⟩, hwants⟩

theorem LockedTo.pushPacket (h : r.LockedTo session) (origin : ω) (packetData : Bytes) :
    (r.pushPacket lib origin packetData).state.LockedTo session := by
  unfold FrameReassembler.pushPacket
  split
  · exact h
  · next header payload _ =>
    rcases r.acceptPacket_cases origin header payload with
      ⟨-, hs⟩ | ⟨-, -, -, hs⟩ | ⟨ha, -, hs⟩ | ⟨ha, -, hs⟩ <;> rw [hs]
    · exact h
    · exact h
    · exact ⟨admitted_sessionLocked .., by rw [admitted_expectedSessionId ha, ha.2 h.1, h.2]⟩
    · refine ⟨by simp, ?_⟩
      rw [storeFragment_expectedSessionId, admitted_expectedSessionId ha, ha.2 h.1, h.2]

end FrameReassembler

namespace ServiceManager

variable {env : Platform} {s : ServiceManager} {session : UInt32}

structure Takes (env : Platform) (s : ServiceManager) (message : Text) (myKeys : KeyPair) :
    Prop where
  connected : s.connection.isSome = true
  challenge : IsChallenge message
  awaiting : s.pairingState = .awaitingChallenge
  derived : (challengeCrypto env message myKeys).isSome = true

def TakesOnly (env : Platform) (session : UInt32) (s : ServiceManager) : Event → Prop
  | .controlLine message myKeys => s.Takes env message myKeys → announcedId env message = session
  | _ => True

theorem Takes.step_eq {message : Text} {myKeys : KeyPair} (h : s.Takes env message myKeys) :
    ∃ crypto, (s.step env (.controlLine message myKeys)).1 =
      s.acceptChallenge env crypto (announcedId env message) := by
  obtain ⟨hconnected, hchallenge, hawaiting, hderived⟩ := h
  unfold challengeCrypto at hderived
  dsimp only at hderived
  split_ifs at hderived with hlen hok
  · have hkey : (extractJsonString message "server_pubkey".toList).isEmpty = false := by
      rw [Bool.eq_false_iff]
      intro hempty
      rw [List.isEmpty_iff.mp hempty] at hlen
      cases hlen
    have hkeys := SessionCrypto.hasKeys_of_deriveSessionKeys (Prod.ext hok rfl)
    rw [IsChallenge] at hchallenge
    simp only [step, hconnected, if_true, onTcpControlMessage, hchallenge, handlePairingChallenge,
      hawaiting, ne_eq, not_true_eq_false, if_false, hkey, Bool.false_eq_true, dif_pos hlen, hok,
      hkeys, Bool.not_true, Bool.or_self]
    exact ⟨_, rfl⟩
  · cases hderived
  · cases hderived

theorem lockedTo_acceptChallenge (hne : session ≠ 0) (s : ServiceManager)
    (crypto : SessionCrypto) :
    (s.acceptChallenge env crypto session).reassembler.LockedTo session := by
  have hre : (s.acceptChallenge env crypto session).reassembler =
      (s.reassembler.setCrypto (some crypto)).setExpectedSessionId session := if_pos hne
  rw [hre]
  exact ⟨rfl, rfl⟩

theorem Takes.lockedTo {message : Text} {myKeys : KeyPair} (h : s.Takes env message myKeys)
    (hne : announcedId env message ≠ 0) :
    (s.step env (.controlLine message myKeys)).1.reassembler.LockedTo
      (announcedId env message) := by
  obtain ⟨crypto, hs⟩ := h.step_eq
  rw [hs]
  exact lockedTo_acceptChallenge hne s crypto

theorem LockedTo.step (hne : session ≠ 0) (h : s.reassembler.LockedTo session) {e : Event}
    (he : s.TakesOnly env session e) : (s.step env e).1.reassembler.LockedTo session := by
  cases e with
  | connectBegin hostIp pin onStatus =>
    simp only [ServiceManager.step]
    split_ifs <;> exact h
  | connectEnd ok =>
    simp only [ServiceManager.step]
    split_ifs <;> exact h
  | disconnectDevice => exact h
  | controlLine message myKeys =>
    by_cases ht : s.Takes env message myKeys
    · obtain rfl := he ht
      exact ht.lockedTo hne
    · simp only [ServiceManager.step]
      split_ifs with hc
      · rcases @onTcpControlMessage_cases env s message myKeys with
          ⟨crypto, sessionId, htype, hstate, hcrypto, -⟩ | ⟨-, -, hs⟩ | hs | hs
        · exact absurd ⟨hc, htype, hstate, by rw [hcrypto]; rfl⟩ ht
        all_goals rw [hs]; exact h
      · exact h
  | datagram source data =>
    simp only [ServiceManager.step, onDatagram]
    split_ifs
    · exact h.pushPacket _ data
    · exact h

/-- Once a challenge with a session is taken, that session is the one enforced, until one with
another is taken. -/
theorem enforces_exec {message : Text} {myKeys : KeyPair} (h : s.Takes env message myKeys)
    (hne : announcedId env message ≠ 0) {later : List Event}
    (hlater : Machine.Guarded (step env) (TakesOnly env (announcedId env message))
      (s.step env (.controlLine message myKeys)).1 later) :
    (Machine.exec (step env) (s.step env (.controlLine message myKeys)).1
      later).1.reassembler.Enforces env.lib (announcedId env message) := by
  have hrun := hlater.invariant
    (I := fun s => s.reassembler.LockedTo (announcedId env message)) (P := fun _ => True)
    (fun s e hs he => ⟨LockedTo.step hne hs he, fun _ _ => trivial⟩) (h.lockedTo hne)
  exact hrun.1.enforces

/-- A run of the phone announces and sends one session, and a desktop that takes a challenge of
the run enforces it. -/
theorem enforces_announced {android : Android} (hb : android.lib.Base64Standard)
    (hbits : env.ulongBits = 32 ∨ env.ulongBits = 64) (session : UInt32)
    (events : List PhoneEvent) :
    let outputs := (Machine.exec (Phone.step android) (Phone.create session) events).2
    (∀ o ∈ outputs, Phone.Announces env session o) ∧
      (session ≠ 0 → ∀ text, .message text ∈ outputs → ∀ s : ServiceManager, ∀ myKeys,
        s.Takes env text myKeys → ∀ later,
          Machine.Guarded (step env) (TakesOnly env session)
            (s.step env (.controlLine text myKeys)).1 later →
          (Machine.exec (step env) (s.step env (.controlLine text myKeys)).1
            later).1.reassembler.Enforces env.lib session) := by
  intro outputs
  have hannounces : ∀ o ∈ outputs, Phone.Announces env session o :=
    Phone.announces_exec hb hbits session events
  refine ⟨hannounces, fun hne text htext s myKeys ht later hlater => ?_⟩
  obtain rfl : announcedId env text = session := hannounces _ htext ht.challenge
  exact enforces_exec ht hne hlater

set_option maxRecDepth 100000 in
/-- The session is announced as -7. -/
theorem enforces_announced_negative :
    let s := (Machine.exec (step .standard) {}
      [.connectBegin "10.0.0.2".toList "1234".toList true, .connectEnd true]).1
    let text := Phone.pairingChallenge (Base64.encode (List.replicate 32 3)) (0 - 7)
    (s.step .standard (.controlLine text (.sample 5))).1.reassembler.Enforces
      Platform.standard.lib (0 - 7) := by
  intro s text
  have hb : Android.standard.lib.Base64Standard := Mbedtls.standard_base64Standard
  have hsent : .message text ∈ (Machine.exec (Phone.step .standard) (Phone.create (0 - 7))
      [.accept "10.0.0.9".toList PairingManager.zeroDigits (.sample 3)]).2 := by decide
  have ht : s.Takes .standard text (.sample 5) := ⟨by decide, by decide, by decide, by decide⟩
  exact (enforces_announced hb (.inl rfl) (0 - 7) _).2 (by decide) text hsent s _ ht [] trivial

end ServiceManager

end VeyraCam
