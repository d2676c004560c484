import VeyraCam.Phone.UdpTransport

/-! # The command gate

Control commands are taken on a connection that has sent the PIN generated for
it and completed its keys, and only with the token minted then. The invariant
follows one connection from its accept: which of the two steps have been made,
and which token the pairing manager holds.
-/

namespace VeyraCam.Phone

open PairingManager

abbrev after (env : Android) (s : Phone) (events : List PhoneEvent) : Phone :=
  (Machine.exec (step env) s events).1

/-- From the given state on there has been a connection, so it is the same one. -/
def StaysOpen (env : Android) (s : Phone) (since : List PhoneEvent) : Prop :=
  ∀ pre, pre <+: since → (after env s pre).connection ≠ none

/-- A line with the PIN and a key has been verified, and a token minted for it. -/
def PinEntered (env : Android) (s : Phone) (pin : Text) (since : List PhoneEvent)
    (tokenBytes : FixedBytes 32) (clientPubKey : Text) : Prop :=
  ∃ pre response post field, since = pre ++ .line response tokenBytes :: post ∧
    env.parseJson response = some field ∧
    field "type".toList = "pairing_response".toList ∧ field "pin".toList = pin ∧
    field "client_pubkey".toList = clientPubKey ∧
    ((after env s pre).pairingManager.verifyPin pin (after env s pre).now tokenBytes).2 = .ok

def Verified (env : Android) (s : Phone) (pin : Text) (since : List PhoneEvent)
    (tokenBytes : FixedBytes 32) : Prop :=
  ∃ pre socketOk post clientPubKey, since = pre ++ .proceed socketOk :: post ∧
    PinEntered env s pin pre tokenBytes clientPubKey ∧
    (∃ c, (after env s pre).connection = some c ∧ c.stage = .completing clientPubKey) ∧
    ((after env s pre).context.completePairing env.lib clientPubKey).2 = true

variable {env : Android} {s₀ s : Phone} {c : Connection} {pin : Text} {since : List PhoneEvent}
  {tokenBytes : FixedBytes 32}

theorem StaysOpen.concat (h : StaysOpen env s₀ since) {e : PhoneEvent}
    (hc : (after env s₀ (since ++ [e])).connection ≠ none) : StaysOpen env s₀ (since ++ [e]) := by
  intro pre hpre
  rcases List.prefix_concat_iff.mp hpre with rfl | hpre
  · exact hc
  · exact h pre hpre

theorem PinEntered.concat {clientPubKey : Text}
    (h : PinEntered env s₀ pin since tokenBytes clientPubKey) (e : PhoneEvent) :
    PinEntered env s₀ pin (since ++ [e]) tokenBytes clientPubKey := by
  obtain ⟨pre, response, post, field, rfl, h⟩ := h
  exact ⟨pre, response, post ++ [e], field, by simp, h⟩

theorem Verified.concat (h : Verified env s₀ pin since tokenBytes) (e : PhoneEvent) :
    Verified env s₀ pin (since ++ [e]) tokenBytes := by
  obtain ⟨pre, socketOk, post, clientPubKey, rfl, h⟩ := h
  exact ⟨pre, socketOk, post ++ [e], clientPubKey, by simp, h⟩

/-- The invariant of an open connection, from the state it was accepted in. -/
structure Open (env : Android) (s₀ : Phone) (pin : Text) (since : List PhoneEvent) (s : Phone)
    (c : Connection) : Prop where
  state : s = after env s₀ since
  connection : s.connection = some c
  staysOpen : StaysOpen env s₀ since
  currentPin : s.pairingManager.currentPin = some pin
  entered : ∀ clientPubKey, c.stage = .completing clientPubKey → ∃ tokenBytes,
    s.pairingManager.authToken = some (Base64.encode tokenBytes.toList) ∧
    PinEntered env s₀ pin since tokenBytes clientPubKey
  verified : c.authenticated = true → ∃ tokenBytes,
    s.pairingManager.authToken = some (Base64.encode tokenBytes.toList) ∧
    Verified env s₀ pin since tokenBytes
  minted : ∃ minted, s.pairingManager.tokens = s₀.pairingManager.tokens ++ minted ∧
    ∀ token ∈ s.pairingManager.authToken, token ∈ minted

theorem Open.concat (h : Open env s₀ pin since s c) {e : PhoneEvent} {s' : Phone}
    {c' : Connection} (hs : s' = (s.step env e).1) (hc : s'.connection = some c') :
    s' = after env s₀ (since ++ [e]) ∧ StaysOpen env s₀ (since ++ [e]) := by
  have hstate : s' = after env s₀ (since ++ [e]) := by
    rw [after, Machine.exec_concat, hs, h.state]
  refine ⟨hstate, h.staysOpen.concat ?_⟩
  rw [← hstate, hc]
  exact Option.some_ne_none c'

theorem Open.keep (h : Open env s₀ pin since s c) {e : PhoneEvent} {s' : Phone}
    {c' : Connection} (hs : s' = (s.step env e).1) (hc : s'.connection = some c')
    (hp : s'.pairingManager.currentPin = s.pairingManager.currentPin)
    (ht : s'.pairingManager.authToken = s.pairingManager.authToken)
    (hm : s'.pairingManager.tokens = s.pairingManager.tokens)
    (hstage : ∀ key, c'.stage = .completing key → c.stage = .completing key)
    (hauth : c'.authenticated = c.authenticated) : Open env s₀ pin (since ++ [e]) s' c' := by
  obtain ⟨hstate, hopen⟩ := h.concat hs hc
  constructor
  · exact hstate
  · exact hc
  · exact hopen
  · rw [hp, h.currentPin]
  · intro key hkey
    obtain ⟨tokenBytes, htoken, hentered⟩ := h.entered key (hstage key hkey)
    exact ⟨tokenBytes, ht.trans htoken, hentered.concat e⟩
  · intro ha
    obtain ⟨tokenBytes, htoken, hverified⟩ := h.verified (hauth ▸ ha)
    exact ⟨tokenBytes, ht.trans htoken, hverified.concat e⟩
  · rw [hm, ht]
    exact h.minted

theorem Compares.verifyPin {input expected : Text} (h : Compares s expected)
    (hm : asciiBytes input = asciiBytes expected) (tokenBytes : FixedBytes 32) :
    s.pairingManager.verifyPin input s.now tokenBytes =
      (s.pairingManager.unlocked.succeed s.now tokenBytes, .ok) := by
  rw [PairingManager.verifyPin, if_neg h.unlocked]
  simp [h.awaiting, h.currentPin, hm]

theorem Open.enter (h : Open env s₀ pin since s c) (hpin : IsAscii pin) {text : Text}
    {field : Text → Text} {expected : Text} (hr : Responds env s c text field)
    (hc : Compares s expected)
    (hm : asciiBytes (field "pin".toList) = asciiBytes expected) {s' : Phone} {stage : Stage}
    (hs : s' = (s.step env (.line text tokenBytes)).1)
    (hp : s'.pairingManager = s.pairingManager.unlocked.succeed s.now tokenBytes)
    (hc' : s'.connection = some { c with stage })
    (hstage : ∀ key, stage = .completing key → key = field "client_pubkey".toList) :
    Open env s₀ pin (since ++ [.line text tokenBytes]) s' { c with stage } := by
  obtain ⟨hstate, hopen⟩ := h.concat hs hc'
  obtain rfl : pin = expected := Option.some.inj (h.currentPin.symm.trans hc.currentPin)
  have hfield : field "pin".toList = pin := eq_of_asciiBytes_eq hpin hm
  have hminted : s'.pairingManager.authToken = some (Base64.encode tokenBytes.toList) := by
    rw [hp]
    rfl
  constructor
  · exact hstate
  · exact hc'
  · exact hopen
  · rw [hp]
    simpa [PairingManager.succeed] using h.currentPin
  · intro key hkey
    obtain rfl := hstage key hkey
    refine ⟨tokenBytes, hminted, since, text, [], field, rfl, hr.parsed, hr.type, hfield, rfl, ?_⟩
    rw [← h.state, hc.verifyPin rfl]
  · intro ha
    rw [hr.unauthenticated] at ha
    cases ha
  · obtain ⟨minted, ht, -⟩ := h.minted
    refine ⟨minted ++ [Base64.encode tokenBytes.toList], ?_, ?_⟩
    · rw [hp, ← List.append_assoc, ← ht]
      simp [PairingManager.succeed]
    · rw [hminted]
      simp

theorem Open.complete (h : Open env s₀ pin since s c) {clientPubKey : Text}
    (hcompleting : c.stage = .completing clientPubKey)
    (hcompleted : (s.context.completePairing env.lib clientPubKey).2 = true) {socketOk : Bool}
    {s' : Phone} (hs : s' = (s.step env (.proceed socketOk)).1)
    (hp : s'.pairingManager = s.pairingManager)
    (hc : s'.connection = some { c with authenticated := true, stage := .configuring }) :
    Open env s₀ pin (since ++ [.proceed socketOk]) s'
      { c with authenticated := true, stage := .configuring } := by
  obtain ⟨hstate, hopen⟩ := h.concat hs hc
  constructor
  · exact hstate
  · exact hc
  · exact hopen
  · rw [hp]
    exact h.currentPin
  · intro key hkey
    cases hkey
  · intro _
    obtain ⟨tokenBytes, htoken, hentered⟩ := h.entered clientPubKey hcompleting
    refine ⟨tokenBytes, hp ▸ htoken, since, socketOk, [], clientPubKey, rfl, hentered, ?_, ?_⟩
    · rw [← h.state]
      exact ⟨c, h.connection, hcompleting⟩
    · rw [← h.state]
      exact hcompleted
  · rw [hp]
    exact h.minted

theorem Open.transition (h : Open env s₀ pin since s c) (hpin : IsAscii pin) {e : PhoneEvent}
    {s' : Phone} {outputs : List PhoneOutput} (ht : Transition env s e s' outputs)
    (hs : s' = (s.step env e).1) :
    s'.connection = none ∨ ∃ c', Open env s₀ pin (since ++ [e]) s' c' := by
  have hcon {c' : Connection} (hc : s.connection = some c') : c' = c :=
    Option.some.inj (hc.symm.trans h.connection)
  cases ht with
  | idle => exact .inr ⟨c, h.keep hs h.connection rfl rfl rfl (fun _ => id) rfl⟩
  | refuse hc => exact absurd (h.connection.symm.trans hc) (Option.some_ne_none c)
  | accept hc => exact absurd (h.connection.symm.trans hc) (Option.some_ne_none c)
  | verify hr hc hm _ =>
    obtain rfl := hcon hr.connection
    refine .inr ⟨_, h.enter hpin hr hc hm hs rfl rfl fun key hkey => ?_⟩
    exact (Stage.completing.inj hkey).symm
  | verifyWithoutKey hr hc hm =>
    obtain rfl := hcon hr.connection
    refine .inr ⟨_, h.enter hpin hr hc hm hs rfl hr.connection fun key hkey => ?_⟩
    rw [hr.reading] at hkey
    cases hkey
  | wrongPin hr hc _ =>
    exact .inr ⟨c, h.keep hs h.connection (by simp) (by simp) (by simp) (fun _ => id) rfl⟩
  | lockedOut hr _ =>
    obtain rfl := hcon hr.connection
    exact .inr ⟨_, h.keep hs rfl rfl rfl rfl (fun _ hk => by cases hk) rfl⟩
  | notAwaiting =>
    exact .inr ⟨c, h.keep hs h.connection (by simp) (by simp) (by simp) (fun _ => id) rfl⟩
  | command => exact .inr ⟨c, h.keep hs h.connection rfl rfl rfl (fun _ => id) rfl⟩
  | hangup hc _ =>
    obtain rfl := hcon hc
    exact .inr ⟨_, h.keep hs rfl rfl rfl rfl (fun _ hk => by cases hk) rfl⟩
  | complete hc hcompleting hcompleted =>
    obtain rfl := hcon hc
    exact .inr ⟨_, h.complete hcompleting (by rw [hcompleted]) hs rfl rfl⟩
  | failToComplete hc _ _ =>
    obtain rfl := hcon hc
    exact .inr ⟨_, h.keep hs rfl rfl rfl rfl (fun _ hk => by cases hk) rfl⟩
  | configure hc _ =>
    obtain rfl := hcon hc
    exact .inr ⟨_, h.keep hs rfl rfl rfl rfl (fun _ hk => by cases hk) rfl⟩
  | leave => exact .inl rfl
  | send => exact .inr ⟨c, h.keep hs h.connection rfl rfl rfl (fun _ => id) rfl⟩
  | tick => exact .inr ⟨c, h.keep hs h.connection rfl rfl rfl (fun _ => id) rfl⟩

theorem open_of_accept {clientIp : Text} {digits : List.Vector (Fin 10) pinLength} {keys : KeyPair}
    (hs : s.connection = none)
    (hc : (s.step env (.accept clientIp digits keys)).1.connection = some c) :
    Open env (s.step env (.accept clientIp digits keys)).1 (generatePin digits) []
      (s.step env (.accept clientIp digits keys)).1 c := by
  have ht := @transition_step env s (.accept clientIp digits keys)
  generalize s.step env (.accept clientIp digits keys) = result at ht hc ⊢
  obtain ⟨s', outputs⟩ := result
  cases ht with
  | idle => exact absurd (hs.symm.trans hc) (Option.some_ne_none c).symm
  | refuse => exact absurd (hs.symm.trans hc) (Option.some_ne_none c).symm
  | accept =>
    obtain rfl := Option.some.inj hc
    constructor
    · rfl
    · rfl
    · intro pre hpre
      rw [List.prefix_nil.mp hpre]
      exact Option.some_ne_none _
    · rfl
    · intro key hkey
      cases hkey
    · intro ha
      cases ha
    · exact ⟨[], by simp, by simp⟩

theorem exists_accept {e : PhoneEvent} (hs : s.connection = none)
    (hc : (s.step env e).1.connection = some c) :
    ∃ clientIp digits keys, e = .accept clientIp digits keys := by
  cases e with
  | accept clientIp digits keys => exact ⟨clientIp, digits, keys, rfl⟩
  | line | hangup | proceed | send | tick =>
    simp only [step, hs] at hc
    cases hc

theorem exists_open (env : Android) (sessionId : UInt32) (events : List PhoneEvent)
    (hc : (after env (create sessionId) events).connection = some c) :
    ∃ before clientIp digits keys since,
      events = before ++ .accept clientIp digits keys :: since ∧
      (after env (create sessionId) before).connection = none ∧
      ∃ c', Open env (after env (create sessionId) (before ++ [.accept clientIp digits keys]))
        (generatePin digits) since (after env (create sessionId) events) c' := by
  induction events using List.reverseRecOn generalizing c with
  | nil => cases hc
  | append_singleton events e ih =>
    set s := after env (create sessionId) events with hs
    have hstep : after env (create sessionId) (events ++ [e]) = (s.step env e).1 := by
      rw [after, Machine.exec_concat]
    rw [hstep] at hc ⊢
    cases hconnection : s.connection with
    | some c₀ =>
      obtain ⟨before, clientIp, digits, keys, since, rfl, hnone, c', hopen⟩ := ih hconnection
      rcases hopen.transition (isAscii_generatePin digits) (transition_step s e) rfl with
        hclosed | hopen
      · exact absurd (hc.symm.trans hclosed) (Option.some_ne_none c)
      · exact ⟨before, clientIp, digits, keys, since ++ [e], by simp, hnone, hopen⟩
    | none =>
      obtain ⟨clientIp, digits, keys, rfl⟩ := exists_accept hconnection hc
      refine ⟨events, clientIp, digits, keys, [], rfl, hconnection, c, ?_⟩
      rw [hstep]
      exact open_of_accept hconnection hc

theorem tokens_accept (s : Phone) (clientIp : Text) (digits : List.Vector (Fin 10) pinLength)
    (keys : KeyPair) : (s.step env (.accept clientIp digits keys)).1.pairingManager.tokens =
      s.pairingManager.tokens := by
  have ht := @transition_step env s (.accept clientIp digits keys)
  generalize s.step env (.accept clientIp digits keys) = result at ht ⊢
  obtain ⟨s', outputs⟩ := result
  cases ht <;> rfl

theorem eq_of_isTokenValid {p : PairingManager} {candidate : Text}
    (h : p.isTokenValid candidate = true)
    (ht : p.authToken = some (Base64.encode tokenBytes.toList)) :
    candidate = Base64.encode tokenBytes.toList := by
  rw [isTokenValid, ht] at h
  exact eq_of_asciiBytes_eq (isAscii_token _) (by simpa using h)

theorem controlCommand_notMem_handleControlCommand (env : Android) (code code' : ℕ) (text : Text) :
    .controlCommand code text ∉ handleControlCommand env code' := by
  unfold handleControlCommand
  split_ifs <;> simp

/-- A control command comes on a connection that has sent the PIN generated for it and
completed its keys, in a line that carries the token minted then, and no earlier one. -/
theorem controlCommand_gated (env : Android) (sessionId : UInt32) (events : List PhoneEvent)
    (e : PhoneEvent) {code : ℕ} {text : Text}
    (ho : .controlCommand code text ∈ ((after env (create sessionId) events).step env e).2) :
    ∃ before clientIp digits keys since tokenBytes tokenBytes' field,
      events = before ++ .accept clientIp digits keys :: since ∧
      (after env (create sessionId) before).connection = none ∧
      StaysOpen env (after env (create sessionId) (before ++ [.accept clientIp digits keys]))
        since ∧
      Verified env (after env (create sessionId) (before ++ [.accept clientIp digits keys]))
        (generatePin digits) since tokenBytes ∧
      e = .line text tokenBytes' ∧ env.parseJson text = some field ∧
      field "auth_token".toList = Base64.encode tokenBytes.toList ∧
      ((after env (create sessionId) events).pairingManager.tokens.Nodup →
        field "auth_token".toList ∉
          (after env (create sessionId) before).pairingManager.tokens) := by
  have ht := @transition_step env (after env (create sessionId) events) e
  generalize (after env (create sessionId) events).step env e = result at ht ho
  obtain ⟨s', outputs⟩ := result
  cases ht with
  | command hr htype hauth htoken =>
    obtain ⟨before, clientIp, digits, keys, since, hevents, hnone, c, hopen⟩ :=
      exists_open env sessionId events hr.connection
    obtain rfl := Option.some.inj (hopen.connection.symm.trans hr.connection)
    obtain ⟨tokenBytes, hminted, hverified⟩ := hopen.verified hauth
    have hfield := eq_of_isTokenValid htoken hminted
    obtain ⟨-, rfl⟩ : code = _ ∧ text = _ := by
      rcases List.mem_cons.mp ho with ho | ho
      · exact PhoneOutput.controlCommand.inj ho
      · exact absurd ho (controlCommand_notMem_handleControlCommand _ _ _ _)
    refine ⟨before, clientIp, digits, keys, since, tokenBytes, _, _, hevents, hnone,
      hopen.staysOpen,
      hverified, rfl, hr.parsed, hfield, fun hnodup hearlier => ?_⟩
    obtain ⟨minted, htokens, hmem⟩ := hopen.minted
    rw [htokens, after, Machine.exec_concat, tokens_accept] at hnodup
    rw [hfield] at hearlier
    exact (List.nodup_append.mp hnodup).2.2 _ hearlier _ (hmem _ hminted) rfl
  | _ => simp at ho

set_option maxRecDepth 100000 in
theorem controlCommand_gated_sample :
    ∃ before clientIp digits keys since tokenBytes,
      sampleVisit "10.0.0.9" ["000001", "000000"] =
        before ++ .accept clientIp digits keys :: since ∧
      Verified .sample (after .sample (create 7) (before ++ [.accept clientIp digits keys]))
        (generatePin digits) since tokenBytes := by
  have hhello : .controlCommand 1 (sampleCommand "hello") ∈
      ((after .sample (create 7) (sampleVisit "10.0.0.9" ["000001", "000000"])).step .sample
        (.line (sampleCommand "hello") (.replicate 32 0))).2 := by decide
  obtain ⟨before, clientIp, digits, keys, since, tokenBytes, -, -, hevents, -, -, hverified, -⟩ :=
    controlCommand_gated .sample 7 _ _ hhello
  exact ⟨before, clientIp, digits, keys, since, tokenBytes, hevents, hverified⟩

end VeyraCam.Phone
