import VeyraCam.Link.Delivery

/-! # The keys of the phone's media

The keys that the phone sends media with are none, or those of a pairing that it
has completed. By then its desktop has the same keys, or has dropped them.
-/

namespace VeyraCam

namespace Phone

variable {android : Android} {s s' : Phone} {e : PhoneEvent} {outputs : List PhoneOutput}

/-- The keys a phone sends media with only change when a pairing is completed. -/
theorem Armed.packetizer (h : Armed s) (ht : Transition android s e s' outputs) :
    s'.context.sender.packetizer.crypto = s.context.sender.packetizer.crypto ∨
      (∃ c, s'.connection = some c ∧ c.authenticated = true ∧ c.stage = .configuring ∧
          ∃ socketOk, e = .proceed socketOk) ∧
        ∃ crypto, s'.context.sender.packetizer.crypto = some crypto ∧ crypto.hasKeys = true := by
  cases ht with
  | @complete c clientPubKey context socketOk _ _ hk =>
    rcases @NativeSenderContext.completePairing_cases android.lib s.context clientPubKey with
      hk' | ⟨_, -, hk', -⟩ | ⟨_, crypto, -, hderived, hk'⟩ <;> rw [hk'] at hk
    · cases hk
    · cases hk
    · obtain ⟨rfl, -⟩ := Prod.mk.inj hk
      exact .inr ⟨⟨_, rfl, rfl, rfl, _, rfl⟩, crypto, rfl,
        SessionCrypto.hasKeys_of_deriveSessionKeys hderived⟩
  | @failToComplete c clientPubKey context socketOk hc hcompleting hk =>
    left
    have hshared := h.pairing _ hc (h.completing _ _ hc hcompleting)
    rcases @NativeSenderContext.completePairing_cases android.lib s.context clientPubKey with
      hk' | ⟨_, -, hk', -⟩ | ⟨_, _, -, -, hk'⟩ <;> rw [hk'] at hk
    · obtain ⟨rfl, -⟩ := Prod.mk.inj hk
      rfl
    · obtain ⟨rfl, -⟩ := Prod.mk.inj hk
      simp [NativeSenderContext.withShared, hshared]
    · cases hk
  | @configure c socketOk hc hconf =>
    left
    have hsame := (NativeSenderContext.configureUdp_crypto android.inetPton s.context c.clientIp
      udpMediaPort socketOk).2
    exact congrArg (·.packetizer.crypto) hsame
  | send => exact .inl (NativeSender.crypto_send android.lib s.context.sender _)
  | _ => exact .inl rfl

theorem step_proceed_of_configuring {c : Connection} (hc : s.connection = some c)
    (hconf : c.stage = .configuring) (socketOk : Bool) :
    (s.step android (.proceed socketOk)).1.connection = some { c with stage := .reading } := by
  rw [step_proceed hc, proceed, hconf]

variable (android) in
theorem Armed.packetizer_handle (h : Armed s) (text : Text) (tokenBytes : FixedBytes 32)
    (socketOk : Bool) :
    (s.handle android text tokenBytes socketOk).1.context.sender.packetizer.crypto =
        s.context.sender.packetizer.crypto ∨
      (∃ c, (s.handle android text tokenBytes socketOk).1.connection = some c ∧
          c.authenticated = true ∧ c.stage ≠ .leaving) ∧
        ∃ crypto, (s.handle android text tokenBytes socketOk).1.context.sender.packetizer.crypto =
          some crypto ∧ crypto.hasKeys = true := by
  have ht₁ := @transition_step android s (.line text tokenBytes)
  have h₁ := h.transition ht₁
  have hsame := (h.packetizer ht₁).resolve_right fun ⟨⟨_, _, _, _, hproceed⟩, _⟩ => by
    obtain ⟨_, he⟩ := hproceed
    cases he
  set s₁ := (s.step android (.line text tokenBytes)).1
  have ht₂ := @transition_step android s₁ (.proceed socketOk)
  have h₂ := h₁.transition ht₂
  have hfirst := h₁.packetizer ht₂
  set s₂ := (s₁.step android (.proceed socketOk)).1
  have hsecond := h₂.packetizer (@transition_step android s₂ (.proceed socketOk))
  have hhandle : (s.handle android text tokenBytes socketOk).1 =
      (s₂.step android (.proceed socketOk)).1 := rfl
  rw [hhandle]
  rcases hsecond with hkept | ⟨⟨c, hc, ha, hconf, -⟩, hkeys⟩
  · rcases hfirst with hkept' | ⟨⟨c, hc, ha, hconf, -⟩, crypto, hcrypto, hk⟩
    · exact .inl (hkept.trans (hkept'.trans hsame))
    · refine .inr ⟨⟨_, step_proceed_of_configuring hc hconf socketOk, ha, Stage.noConfusion⟩,
        crypto, hkept.trans hcrypto, hk⟩
  · refine .inr ⟨⟨c, hc, ha, ?_⟩, hkeys⟩
    rw [hconf]
    exact Stage.noConfusion

theorem Transition.frameCounter (ht : Transition android s e s' outputs)
    (hsend : ∀ call, e ≠ .send call) :
    s'.context.sender.frameCounter = s.context.sender.frameCounter := by
  have hcomplete (clientPubKey : Text) :
      (s.context.completePairing android.lib clientPubKey).1.sender.frameCounter =
        s.context.sender.frameCounter := by
    rcases @NativeSenderContext.completePairing_cases android.lib s.context clientPubKey with
      hk | ⟨_, -, hk, -⟩ | ⟨_, _, -, -, hk⟩ <;> rw [hk]
    unfold NativeSenderContext.withShared
    dsimp only
    split_ifs <;> rfl
  cases ht with
  | @complete _ clientPubKey _ _ _ _ hk | @failToComplete _ clientPubKey _ _ _ _ hk =>
    have hsame := hcomplete clientPubKey
    rw [hk] at hsame
    exact hsame
  | @configure c socketOk =>
    have hsame := (NativeSenderContext.configureUdp_crypto android.inetPton s.context c.clientIp
      udpMediaPort socketOk).2
    exact congrArg (·.frameCounter) hsame
  | @send call => exact absurd rfl (hsend call)
  | _ => rfl

/-- A phone with keys for its media serves nobody that has not authenticated. -/
def Committed (s : Phone) : Prop :=
  s.context.sender.packetizer.crypto ≠ none → ∀ c, s.connection = some c → c.authenticated = true

theorem Armed.committed (h : Armed s) (hc : Committed s) (ht : Transition android s e s' outputs)
    (haccept : ∀ ip digits keys, e ≠ .accept ip digits keys) : Committed s' := by
  intro hkeys c hconnection
  rcases h.packetizer ht with hsame | ⟨⟨c', hc', ha, -⟩, -⟩
  · rw [hsame] at hkeys
    cases ht with
    | idle | refuse | verifyWithoutKey | wrongPin | notAwaiting | command | send | tick =>
      exact hc hkeys c hconnection
    | @accept clientIp digits keys => exact absurd rfl (haccept clientIp digits keys)
    | verify hr | lockedOut hr =>
      have hauth := hc hkeys _ hr.connection
      rw [hr.unauthenticated] at hauth
      cases hauth
    | hangup hold | failToComplete hold | configure hold =>
      have hauth := hc hkeys _ hold
      obtain rfl := Option.some.inj hconnection
      exact hauth
    | complete =>
      obtain rfl := Option.some.inj hconnection
      rfl
    | leave => cases hconnection
  · obtain rfl := Option.some.inj (hc'.symm.trans hconnection)
    exact ha

theorem Armed.exec (h : Armed s) (hc : Committed s) {events : List PhoneEvent}
    (he : ∀ e ∈ events, (∀ ip digits keys, e ≠ .accept ip digits keys) ∧ ∀ call, e ≠ .send call) :
    let s' := (Machine.exec (step android) s events).1
    Armed s' ∧ Committed s' ∧
      s'.context.sender.frameCounter = s.context.sender.frameCounter := by
  refine ((Machine.guarded_of_forall he s).invariant
    (I := fun s' => Armed s' ∧ Committed s' ∧
      s'.context.sender.frameCounter = s.context.sender.frameCounter)
    (P := fun _ => True) ?_ ⟨h, hc, rfl⟩).1
  rintro s e ⟨h, hc, hcounter⟩ ⟨haccept, hsend⟩
  have ht := @transition_step android s e
  exact ⟨⟨h.transition ht, h.committed hc ht haccept, (ht.frameCounter hsend).trans hcounter⟩,
    fun _ _ => trivial⟩

end Phone

namespace ControlLink

variable {env : Platform} {android : Android} {K M : Set KeyPair} {pin : Text}
  {l l' : ControlLink}

/-- An authenticated phone and the desktop have each other's keys, or the desktop has dropped
them. -/
theorem Phase.keys {pin : Text} (h : Phase env android K M pin l) {c : Connection}
    (hc : l.phone.connection = some c) (ha : c.authenticated = true)
    (hstage : c.stage ≠ .leaving) :
    l.accepted = true ∧ ∃ crypto, l.phone.context.sender.packetizer.crypto = some crypto ∧
      HoldsOrDropped l.desktop crypto.mirror := by
  have hne {c' : Connection} (phone : Serves l.phone c' false) : False := by
    obtain rfl := Option.some.inj (phone.connection.symm.trans hc)
    exact Bool.false_ne_true (phone.authenticated_eq.symm.trans ha)
  cases h with
  | waiting _ phone =>
    rw [phone] at hc
    cases hc
  | challenged _ phone | responded _ phone | refused _ phone => exact absurd (hne phone) id
  | authenticated accepted _ _ _ _ packetizer holds => exact ⟨accepted, _, packetizer, holds⟩
  | left _ hleaving => exact absurd (hleaving c hc) hstage

/-- The keys that a phone sends media with are none, or those its desktop takes media with. -/
structure Channel (l : ControlLink) : Prop where
  armed : l.phone.Armed
  accepted : l.phone.context.sender.packetizer.crypto ≠ none → l.accepted = true
  committed : l.phone.Committed
  hasKeys : ∀ pc, l.phone.context.sender.packetizer.crypto = some pc → pc.hasKeys = true
  tied : ∀ pc, l.phone.context.sender.packetizer.crypto = some pc →
    l.desktop.pairingState ≠ .awaitingChallenge ∧
      ∀ c, l.desktop.crypto = some c → c = pc.mirror

/-- The phone has taken keys where it had none, and its desktop has the same or has dropped them. -/
structure Rekeyed (l l' : ControlLink) : Prop where
  keyless : l.phone.context.sender.packetizer.crypto = none
  keyed : ∃ crypto, l'.phone.context.sender.packetizer.crypto = some crypto ∧
    crypto.hasKeys = true ∧ l'.accepted = true ∧ HoldsOrDropped l'.desktop crypto.mirror

theorem Channel.packetizer_single (h : Channel l) {e : PhoneEvent}
    (he : ∀ socketOk, e ≠ .proceed socketOk) :
    (l.phoneStep android [e]).phone.context.sender.packetizer.crypto =
      l.phone.context.sender.packetizer.crypto := by
  rw [phoneStep_single]
  refine (h.armed.packetizer (Phone.transition_step l.phone e)).resolve_right ?_
  rintro ⟨⟨_, _, _, _, socketOk, hproceed⟩, -⟩
  exact he socketOk hproceed

/-- Between lines no call is left that would complete a pairing. -/
theorem Channel.packetizer_leave (h : Channel l)
    (hphase : Phase env android K M pin (l.step env android .leave)) :
    (l.step env android .leave).phone.context.sender.packetizer.crypto =
      l.phone.context.sender.packetizer.crypto := by
  have hp := h.armed.packetizer (@Phone.transition_step android l.phone (.proceed false))
  simp only [step, phoneStep_single] at hphase ⊢
  refine hp.resolve_right ?_
  rintro ⟨⟨c, hc, -, hconf, -⟩, -⟩
  rcases hphase.phone_cases with ⟨hnone, -⟩ | ⟨⟨c', _, hserves⟩, -⟩ | ⟨hleaving, -⟩
  · rw [hc] at hnone
    cases hnone
  · obtain rfl := Option.some.inj (hc.symm.trans hserves.connection)
    rw [hserves.reading] at hconf
    cases hconf
  · rw [hleaving c hc] at hconf
    cases hconf

/-- A line of a client that has not authenticated may complete its pairing. -/
theorem Channel.packetizer_line (h : Channel l) {line : Text} {rest : List Text}
    (hl : l.toPhone = line :: rest) {c : Connection} (hserves : Serves l.phone c false)
    (tokenBytes : FixedBytes 32) (socketOk : Bool)
    (hphase : Phase env android K M pin (l.step env android (.readByPhone tokenBytes socketOk))) :
    (l.step env android (.readByPhone tokenBytes socketOk)).phone.context.sender.packetizer.crypto =
        l.phone.context.sender.packetizer.crypto ∨
      Rekeyed l (l.step env android (.readByPhone tokenBytes socketOk)) := by
  have hphone : (l.step env android (.readByPhone tokenBytes socketOk)).phone =
      (l.phone.handle android line tokenBytes socketOk).1 :=
    congrArg phone (readByPhone_cons hl hserves tokenBytes socketOk)
  rcases h.armed.packetizer_handle android line tokenBytes socketOk with
    hsame | ⟨⟨c', hc', ha', hstage⟩, crypto, hcrypto, hk⟩
  · left
    rw [hphone]
    exact hsame
  · right
    constructor
    · by_contra hkeys
      have hauth := h.committed hkeys c hserves.connection
      rw [hserves.authenticated_eq] at hauth
      cases hauth
    · rw [← hphone] at hc' hcrypto
      obtain ⟨haccepted, crypto', hcrypto', hholds⟩ := hphase.keys hc' ha' hstage
      obtain rfl := Option.some.inj (hcrypto.symm.trans hcrypto')
      exact ⟨crypto, hcrypto, hk, haccepted, hholds⟩

theorem Channel.packetizer_readByPhone (h : Channel l) (hphase : Phase env android K M pin l)
    (tokenBytes : FixedBytes 32) (socketOk : Bool)
    (hphase' : Phase env android K M pin (l.step env android (.readByPhone tokenBytes socketOk))) :
    (l.step env android (.readByPhone tokenBytes socketOk)).phone.context.sender.packetizer.crypto =
        l.phone.context.sender.packetizer.crypto ∨
      Rekeyed l (l.step env android (.readByPhone tokenBytes socketOk)) := by
  cases hl : l.toPhone with
  | nil =>
    left
    simp only [step, hl]
  | cons line rest =>
    rcases hphase.phone_cases with ⟨hnone, -⟩ | ⟨⟨c, authenticated, hserves⟩, -⟩ | ⟨hleft, ha⟩
    · left
      rw [readByPhone_of_not_isReading (by simp [isReading, hnone])]
    · cases authenticated with
      | true =>
        left
        obtain ⟨hsame, -⟩ := @Phone.handle_of_authenticated android _ _ hserves.connection
          hserves.reading hserves.authenticated_eq line tokenBytes socketOk
        rw [readByPhone_cons hl hserves tokenBytes socketOk, hsame]
      | false => exact h.packetizer_line hl hserves tokenBytes socketOk hphase'
    · left
      rw [readByPhone_of_not_isReading (not_isReading_of_leaving hleft)]

theorem Channel.packetizer (h : Channel l) (move : Move) (hphase : Phase env android K M pin l)
    (hphase' : Phase env android K M pin (l.step env android move)) :
    (l.step env android move).phone.context.sender.packetizer.crypto =
        l.phone.context.sender.packetizer.crypto ∨
      Rekeyed l (l.step env android move) := by
  cases move with
  | connectEnd | disconnectDevice | datagram => exact .inl rfl
  | command c | readByDesktop myKeys =>
    left
    simp only [step]
    repeat' split
    all_goals rfl
  | accept clientIp digits keys =>
    left
    simp only [step]
    split_ifs
    · rfl
    · exact h.packetizer_single (by simp)
  | hangup | send | tick => exact .inl (h.packetizer_single (by simp))
  | leave => exact .inl (h.packetizer_leave hphase')
  | readByPhone tokenBytes socketOk =>
    exact h.packetizer_readByPhone hphase tokenBytes socketOk hphase'

/-- The phone apart from its keys: what it holds of them, and its count of frames. -/
structure Follows (l l' : ControlLink) : Prop where
  armed : l'.phone.Armed
  committed : l'.phone.Committed
  accepted : l.accepted = true → l'.accepted = true
  frameCounter : l'.phone.context.sender.frameCounter = l.phone.context.sender.frameCounter

theorem Channel.follows (h : Channel l) (hphone : l'.phone = l.phone)
    (haccepted : l'.accepted = l.accepted) : Follows l l' := by
  refine ⟨?_, ?_, fun ha => haccepted.trans ha, ?_⟩ <;> rw [hphone]
  · exact h.armed
  · exact h.committed

theorem Channel.follows_exec (h : Channel l) (hphone : l'.phone = l.phone)
    (haccepted : l'.accepted = l.accepted) (events : List PhoneEvent)
    (he : ∀ e ∈ events, (∀ ip digits keys, e ≠ .accept ip digits keys) ∧
      ∀ call, e ≠ .send call) : Follows l (l'.phoneStep android events) := by
  obtain ⟨harmed, hcommitted, hcounter⟩ := @Phone.Armed.exec android _ h.armed h.committed _ he
  rw [← hphone] at harmed hcommitted hcounter
  exact ⟨harmed, hcommitted, fun ha => haccepted.trans ha, hcounter.trans (by rw [hphone])⟩

theorem Channel.follows_accept (h : Channel l) (clientIp : Text)
    (digits : List.Vector (Fin 10) PairingManager.pinLength) (keys : KeyPair) :
    Follows l (l.step env android (.accept clientIp digits keys)) := by
  simp only [step]
  split_ifs with haccepted
  · exact h.follows rfl rfl
  · have ht := @Phone.transition_step android l.phone (.accept clientIp digits keys)
    rw [phoneStep_single]
    refine ⟨h.armed.transition ht, fun hkeys => ?_, fun _ => rfl, ht.frameCounter (by simp)⟩
    have hsame := (h.armed.packetizer ht).resolve_right (by
      rintro ⟨⟨_, _, _, _, _, hproceed⟩, _⟩
      cases hproceed)
    rw [hsame] at hkeys
    exact absurd (h.accepted hkeys) haccepted

variable (env android) in
theorem Channel.follows_step (h : Channel l) {move : Move} (hsend : ∀ call, move ≠ .send call) :
    Follows l (l.step env android move) := by
  cases move with
  | connectEnd | disconnectDevice | datagram => exact h.follows rfl rfl
  | command c | readByDesktop myKeys =>
    simp only [step]
    repeat' split
    all_goals exact h.follows rfl rfl
  | accept clientIp digits keys => exact h.follows_accept clientIp digits keys
  | hangup => exact h.follows_exec rfl rfl [.hangup] (by simp)
  | leave => exact h.follows_exec rfl rfl [.proceed false] (by simp)
  | tick ms => exact h.follows_exec rfl rfl [.tick ms] (by simp)
  | send call => exact absurd rfl (hsend call)
  | readByPhone tokenBytes socketOk =>
    simp only [step]
    split
    · exact h.follows rfl rfl
    · split_ifs
      · next line rest hl _ =>
        have hphone : ({ l with toPhone := rest } : ControlLink).phone = l.phone := rfl
        exact h.follows_exec hphone rfl
          [.line line tokenBytes, .proceed socketOk, .proceed socketOk] (by simp)
      · exact h.follows rfl rfl

variable (env android) in
theorem Channel.phone_step (h : Channel l) (move : Move) :
    (l.step env android move).phone.Armed ∧ (l.step env android move).phone.Committed ∧
      (l.accepted = true → (l.step env android move).accepted = true) := by
  by_cases hsend : ∃ call, move = .send call
  · obtain ⟨call, rfl⟩ := hsend
    have ht := @Phone.transition_step android l.phone (.send call)
    simp only [step, phoneStep_single]
    exact ⟨h.armed.transition ht, h.armed.committed h.committed ht (by simp), id⟩
  · have hfollows := h.follows_step env android fun call he => hsend ⟨call, he⟩
    exact ⟨hfollows.armed, hfollows.committed, hfollows.accepted⟩

end ControlLink

end VeyraCam
