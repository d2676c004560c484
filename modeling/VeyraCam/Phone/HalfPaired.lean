import VeyraCam.Phone.UdpTransport

/-! # Pairing half-way

A right PIN pairs the manager before the key of the client is looked at. When the
key is of no use, the error is sent and the line is over, but the manager stays
paired: it has a token, and takes no other PIN on this connection.
-/

namespace VeyraCam

namespace PairingManager

def isPaired (p : PairingManager) : Bool := p.state = .paired

theorem isPaired_iff {p : PairingManager} : p.isPaired = true ↔ p.state = .paired :=
  decide_eq_true_iff

/-- The manager waits for a PIN, be it after a lockout, and has no token. -/
def Unpaired (p : PairingManager) : Prop :=
  (p.state = .awaitingPin ∨ p.state = .locked) ∧ p.authToken = none

theorem Unpaired.state_ne {p : PairingManager} (h : p.Unpaired) : p.state ≠ .paired := by
  rcases h.1 with hstate | hstate <;> simp [hstate]

theorem Unpaired.unlocked {p : PairingManager} (h : p.Unpaired) : p.unlocked.Unpaired := by
  refine ⟨.inl ?_, by simpa using h.2⟩
  unfold PairingManager.unlocked
  split_ifs with hlocked
  · rfl
  · exact h.1.resolve_right hlocked

theorem Unpaired.refuse {p : PairingManager} (h : p.Unpaired) (now : ℕ) :
    (p.refuse now).Unpaired := by
  refine ⟨?_, by simpa using h.2⟩
  unfold PairingManager.refuse
  dsimp only
  split_ifs
  · exact .inr rfl
  · exact h.1

end PairingManager

namespace NativeSenderContext

/-- A client's key that decodes to 32 bytes from which session keys can be derived. -/
def Usable (lib : Mbedtls) (keys : KeyPair) (clientPubKey : Text) : Prop :=
  ∃ clientPub : FixedBytes 32, SessionCrypto.base64Decode lib clientPubKey = clientPub.toList ∧
    (SessionCrypto.deriveSessionKeys lib true clientPub keys.publicKey keys.privateKey).1 = true

variable {lib : Mbedtls} {c : NativeSenderContext} {clientPubKey : Text}

theorem completePairing_iff (hcrypto : c.crypto.isSome = true) :
    (c.completePairing lib clientPubKey).2 = true ↔ Usable lib c.pendingKeys clientPubKey := by
  have hsome : ¬ c.crypto.isNone = true := by
    rw [Option.isNone_iff_eq_none, ← Option.isSome_iff_ne_none.not_left]
    exact not_not.mpr hcrypto
  unfold completePairing
  rw [if_neg hsome]
  dsimp only
  constructor
  · intro hcompleted
    split_ifs at hcompleted with hlength hfails
    · refine ⟨⟨_, hlength⟩, rfl, ?_⟩
      simp only [Bool.or_eq_true, Bool.not_eq_true', not_or, Bool.not_eq_false] at hfails
      exact hfails.1
  · rintro ⟨clientPub, hdecoded, hderived⟩
    obtain ⟨crypto, hcrypto⟩ : ∃ crypto, SessionCrypto.deriveSessionKeys lib true clientPub
        c.pendingKeys.publicKey c.pendingKeys.privateKey = (true, crypto) :=
      ⟨_, Prod.ext hderived rfl⟩
    have hlength : (SessionCrypto.base64Decode lib clientPubKey).length = publicKeySize := by
      rw [hdecoded, List.Vector.toList_length]
      rfl
    rw [dif_pos hlength]
    have hpub : (⟨_, hlength⟩ : FixedBytes 32) = clientPub := List.Vector.toList_injective hdecoded
    rw [hpub, hcrypto]
    have hkeys := SessionCrypto.hasKeys_of_deriveSessionKeys hcrypto
    simp [hkeys]

theorem crypto_of_completed {context : NativeSenderContext}
    (h : c.completePairing lib clientPubKey = (context, true)) : context.crypto.isSome = true := by
  rcases @completePairing_cases lib c clientPubKey with
    hc | ⟨clientPub, -, hc, -⟩ | ⟨clientPub, crypto, -, -, hc⟩ <;> rw [hc] at h
  · cases h
  · cases h
  · obtain ⟨rfl, -⟩ := Prod.mk.inj h
    rfl

end NativeSenderContext

namespace Phone

variable {env : Android} {s : Phone} {c : Connection}

/-- Between lines the manager is paired exactly when the connection is authenticated, and waits
for a PIN until then. -/
def WhollyPaired (s : Phone) : Prop :=
  ∀ c, s.connection = some c → (∀ key, c.stage ≠ .completing key) →
    (s.pairingManager.isPaired = true ↔ c.authenticated = true) ∧
      (c.authenticated = false → s.pairingManager.Unpaired)

/-- A right PIN comes with a key, and the key that came with it can be used. -/
def KeyUsable (env : Android) (s : Phone) : PhoneEvent → Prop
  | .line text _ => ∀ c field expected, utf16Length text ≤ maxLineLength →
    Responds env s c text field → Compares s expected →
    PairingManager.asciiBytes (field "pin".toList) = PairingManager.asciiBytes expected →
      field "client_pubkey".toList ≠ []
  | .proceed _ => ∀ c key, s.connection = some c → c.stage = .completing key →
    NativeSenderContext.Usable env.lib s.context.pendingKeys key
  | _ => True

/-- How far the manager is with a connection. -/
inductive PairsWith (p : PairingManager) (c : Connection) : Prop
  | unpaired (h : p.Unpaired) (unauthenticated : c.authenticated = false)
      (stage : ∀ key, c.stage ≠ .completing key)
  | completing {key : Text} (h : p.state = .paired) (unauthenticated : c.authenticated = false)
      (stage : c.stage = .completing key)
  | paired (h : p.state = .paired) (authenticated : c.authenticated = true)
      (stage : ∀ key, c.stage ≠ .completing key)

/-- The invariant; the keys of a connection are there until a completion fails. -/
structure Pairs (s : Phone) : Prop where
  keyed : ∀ c, s.connection = some c → s.context.crypto.isSome = true
  pairs : ∀ c, s.connection = some c → PairsWith s.pairingManager c

theorem Pairs.whollyPaired (h : Pairs s) : WhollyPaired s := by
  rintro c hc hstage
  rw [PairingManager.isPaired_iff]
  cases h.pairs c hc with
  | unpaired hunpaired hauth _ =>
    exact ⟨iff_of_false hunpaired.state_ne (by simp [hauth]), fun _ => hunpaired⟩
  | completing _ _ hcompleting => exact absurd hcompleting (hstage _)
  | paired hpaired hauth _ => exact ⟨iff_of_true hpaired hauth, by simp [hauth]⟩

theorem step_line_of_matched {text : Text} {field : Text → Text} {expected : Text}
    (hlength : utf16Length text ≤ maxLineLength) (hr : Responds env s c text field)
    (hc : Compares s expected)
    (hmatch : PairingManager.asciiBytes (field "pin".toList) =
      PairingManager.asciiBytes expected) (tokenBytes : FixedBytes 32) :
    s.step env (.line text tokenBytes) =
      let paired := { s with pairingManager := s.pairingManager.unlocked.succeed s.now tokenBytes }
      if (field "client_pubkey".toList).isEmpty then
        (paired, [.message (pairingError "invalid_key")])
      else
        ({ paired with
            connection := some { c with stage := .completing (field "client_pubkey".toList) } },
          []) := by
  have hverify : s.pairingManager.verifyPin (field "pin".toList) s.now tokenBytes =
      (s.pairingManager.unlocked.succeed s.now tokenBytes, .ok) := by
    rw [PairingManager.verifyPin, if_neg hc.unlocked]
    dsimp only
    rw [if_neg (not_not.mpr hc.awaiting), PairingManager.unlocked_currentPin, hc.currentPin]
    exact if_pos hmatch
  have hline : s.step env (.line text tokenBytes) = s.handleLine env c text tokenBytes := by
    rw [step, hr.connection]
    exact if_pos hr.reading
  rw [hline, handleLine, if_neg (Nat.not_lt.mpr hlength), hr.parsed]
  dsimp only
  rw [if_pos hr.type, handlePairingResponse, if_neg (by simp [hr.unauthenticated]), hverify]

theorem step_line_of_long {text : Text} (h : maxLineLength < utf16Length text)
    (tokenBytes : FixedBytes 32) : s.step env (.line text tokenBytes) = (s, []) := by
  rw [step]
  split
  · rfl
  · rw [handleLine, if_pos h]
    exact ite_self _

theorem Responds.unpaired {text : Text} {field : Text → Text} (h : Responds env s c text field)
    (hp : Pairs s) : s.pairingManager.Unpaired := by
  cases hp.pairs c h.connection with
  | unpaired hunpaired => exact hunpaired
  | completing _ _ hcompleting => cases h.reading.symm.trans hcompleting
  | paired _ hauth => cases h.unauthenticated.symm.trans hauth

theorem PairsWith.stage {p : PairingManager} (h : PairsWith p c) {stage : Stage}
    (hc : ∀ key, c.stage ≠ .completing key) (hs : ∀ key, stage ≠ .completing key) :
    PairsWith p { c with stage } := by
  cases h with
  | unpaired h hauth _ => exact .unpaired h hauth hs
  | completing _ _ hcompleting => exact absurd hcompleting (hc _)
  | paired h hauth _ => exact .paired h hauth hs

theorem Pairs.paired_of_completing (h : Pairs s) (hc : s.connection = some c) {key : Text}
    (hstage : c.stage = .completing key) :
    s.pairingManager.state = .paired ∧ c.authenticated = false := by
  cases h.pairs c hc with
  | unpaired _ _ hnot => exact absurd hstage (hnot key)
  | completing hpaired hauth _ => exact ⟨hpaired, hauth⟩
  | paired _ _ hnot => exact absurd hstage (hnot key)

theorem Pairs.of_none (h : s.connection = none) : Pairs s := by
  constructor
  · intro c hc
    cases h.symm.trans hc
  · intro c hc
    cases h.symm.trans hc

theorem Pairs.of_some (hc : s.connection = some c) (hkeyed : s.context.crypto.isSome = true)
    (hpairs : PairsWith s.pairingManager c) : Pairs s := by
  refine ⟨fun _ _ => hkeyed, fun c' hc' => ?_⟩
  obtain rfl := Option.some.inj (hc.symm.trans hc')
  exact hpairs

theorem KeyUsable.outputs_ne {text : Text} {field : Text → Text} {expected : Text}
    {tokenBytes : FixedBytes 32} (hg : KeyUsable env s (.line text tokenBytes))
    (hr : Responds env s c text field) (hc : Compares s expected)
    (hmatch : PairingManager.asciiBytes (field "pin".toList) =
      PairingManager.asciiBytes expected) :
    (s.step env (.line text tokenBytes)).2 ≠ [.message (pairingError "invalid_key")] := by
  intro houtputs
  rcases Nat.lt_or_ge maxLineLength (utf16Length text) with hlong | hlength
  · rw [step_line_of_long hlong] at houtputs
    cases houtputs
  · have hkey : (field "client_pubkey".toList).isEmpty = false := by
      simpa using hg c field expected hlength hr hc hmatch
    rw [step_line_of_matched hlength hr hc hmatch, hkey] at houtputs
    cases houtputs

theorem Pairs.step (h : Pairs s) {e : PhoneEvent} (hg : KeyUsable env s e) :
    Pairs (s.step env e).1 := by
  have ht : Transition env s e _ _ := transition_step s e
  generalize hstep : s.step env e = r at ht
  obtain ⟨s', outputs⟩ := r
  cases ht with
  | idle => exact h
  | refuse => exact h
  | accept hc hu =>
    refine .of_some rfl rfl ?_
    exact .unpaired ⟨.inl rfl, rfl⟩ rfl (by simp)
  | verify hr hc hmatch hkey =>
    refine .of_some rfl (h.keyed _ hr.connection) ?_
    exact .completing rfl hr.unauthenticated rfl
  | verifyWithoutKey hr hc hmatch =>
    exact absurd (congrArg Prod.snd hstep) (hg.outputs_ne hr hc hmatch)
  | wrongPin hr hc _ =>
    have hunpaired := (hr.unpaired h).unlocked.refuse s.now
    exact .of_some hr.connection (h.keyed _ hr.connection)
      (.unpaired hunpaired hr.unauthenticated (by simp [hr.reading]))
  | lockedOut hr _ =>
    have hpairs := h.pairs _ hr.connection
    exact .of_some rfl (h.keyed _ hr.connection) (hpairs.stage (by simp [hr.reading]) (by simp))
  | notAwaiting hr _ _ =>
    have hunpaired := (hr.unpaired h).unlocked
    exact .of_some hr.connection (h.keyed _ hr.connection)
      (.unpaired hunpaired hr.unauthenticated (by simp [hr.reading]))
  | command => exact h
  | hangup hc hreading =>
    have hpairs := h.pairs _ hc
    exact .of_some rfl (h.keyed _ hc) (hpairs.stage (by simp [hreading]) (by simp))
  | complete hc hstage hcompleted =>
    have hpaired := (h.paired_of_completing hc hstage).1
    exact .of_some rfl (NativeSenderContext.crypto_of_completed hcompleted)
      (.paired hpaired rfl (by simp))
  | failToComplete hc hstage hfailed =>
    have hcompleted :=
      (NativeSenderContext.completePairing_iff (h.keyed _ hc)).mpr (hg _ _ hc hstage)
    rw [hfailed] at hcompleted
    cases hcompleted
  | configure hc hstage =>
    have hkeyed := h.keyed _ hc
    rw [← (NativeSenderContext.configureUdp_crypto ..).1] at hkeyed
    exact .of_some rfl hkeyed ((h.pairs _ hc).stage (by simp [hstage]) (by simp))
  | leave hc hl => exact .of_none rfl
  | send => exact ⟨h.keyed, h.pairs⟩
  | tick => exact ⟨h.keyed, h.pairs⟩

theorem Pairs.keyUsable (h : Pairs s) {e : PhoneEvent} (hw : WhollyPaired (s.step env e).1) :
    KeyUsable env s e := by
  cases e with
  | line text tokenBytes =>
    rintro c field expected hlength hr hc hmatch hkey
    rw [step_line_of_matched hlength hr hc hmatch, hkey] at hw
    have hpaired := (hw c hr.connection (by simp [hr.reading])).1.mp (by
      rw [PairingManager.isPaired_iff]
      rfl)
    cases hr.unauthenticated.symm.trans hpaired
  | proceed socketOk =>
    rintro c key hc hstage
    by_contra hkey
    obtain ⟨hpaired, hauth⟩ := h.paired_of_completing hc hstage
    have hfailed := (NativeSenderContext.completePairing_iff (h.keyed c hc)).not.mpr hkey
    rw [Phone.step, hc] at hw
    dsimp only at hw
    rw [proceed, hstage] at hw
    dsimp only at hw
    rw [if_neg hfailed] at hw
    have hwhole := (hw { c with stage := .reading } rfl (by simp)).1.mp
      (PairingManager.isPaired_iff.mpr hpaired)
    cases hauth.symm.trans hwhole
  | _ => trivial

theorem pairs_create (sessionId : UInt32) : Pairs (create sessionId) := .of_none rfl

/-- All through a run of the phone the manager is paired between lines exactly when the connection
is authenticated, if and only if every right PIN comes with a key that can be used. -/
theorem whollyPaired_iff_keyUsable (env : Android) (sessionId : UInt32)
    (events : List PhoneEvent) :
    Machine.Guarded (step env) (KeyUsable env) (create sessionId) events ↔
      ∀ pre, pre <+: events →
        (Machine.exec (step env) (create sessionId) pre).1.WhollyPaired := by
  refine Machine.guarded_iff_forall_reached (I := Pairs) ?_ ?_ ?_ ?_ _
  · exact fun s e h hg => h.step hg
  · exact fun s h => h.whollyPaired
  · exact fun s e h hw => h.keyUsable hw
  · exact pairs_create sessionId

set_option maxRecDepth 100000 in
/-- After a right PIN without a key the manager is paired, and the right PIN with a key is not
looked at any more. -/
theorem not_whollyPaired_without_key :
    let accepted : PhoneEvent :=
      .accept "10.0.0.9".toList PairingManager.zeroDigits (.sample 49)
    let withoutKey := jsonToString [("type".toList, .string "pairing_response".toList),
      ("pin".toList, .string "000000".toList)]
    let s := (Machine.exec (step .sample) (create 7)
      [accepted, .line withoutKey (.replicate 32 1)]).1
    let retried := (Machine.exec (step .sample) s
      [.line (sampleResponse "000000") (.replicate 32 2), .proceed true, .proceed true]).1
    ¬ s.WhollyPaired ∧ retried.connection.map Connection.authenticated = some false := by
  refine ⟨fun h => ?_, by decide⟩
  exact absurd ((h ⟨"10.0.0.9".toList, "000000".toList, false, .reading⟩ rfl (by simp)).1.mp
    (by decide)) (by simp)

end Phone

end VeyraCam
