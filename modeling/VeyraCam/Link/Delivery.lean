import VeyraCam.Link.CommandsIssued

/-! # Delivery of commands

On a link that pairs, the phone executes the commands that its desktop sends
while it is paired, each once and in their order, and no others: it passes over
the lines without a token.
-/

namespace VeyraCam

namespace ControlLink

variable {env : Platform} {android : Android} {K M : Set KeyPair} {pin : Text}
  {l l' : ControlLink} {issued : List Text} {executed : List (ℕ × Text)}

/-! ## The phone -/

theorem Left.quiet (h : Left l) {p : Phone} (hq : Quiet l.phone p) (toDesktop : List Text) :
    Left { l with phone := p, toDesktop } :=
  ⟨h.accepted, fun c hc => h.leaving c (hq.connection ▸ hc)⟩

def Move.OfPhone : Move → Prop
  | .accept _ _ _ | .hangup | .leave | .send _ | .tick _ => True
  | _ => False

theorem Left.phone (h : Left l) {move : Move} (hmove : Move.OfPhone move) :
    Left (l.step env android move) := by
  cases move with
  | connectEnd | disconnectDevice | datagram | command | readByDesktop | readByPhone =>
    exact absurd hmove id
  | accept ip digits keys =>
    simp only [step, if_pos h.accepted]
    exact h
  | hangup =>
    simp only [step, phoneStep_single]
    cases hc : l.phone.connection with
    | none =>
      simp only [Phone.step, hc]
      exact h.quiet ⟨rfl, rfl, rfl, rfl, rfl⟩ _
    | some c =>
      have hstage : c.stage ≠ .reading := by
        rw [h.leaving c hc]
        exact Stage.noConfusion
      simp only [Phone.step, hc, if_neg hstage]
      exact h.quiet ⟨rfl, rfl, rfl, rfl, rfl⟩ _
  | leave =>
    simp only [step, phoneStep_single]
    cases hc : l.phone.connection with
    | none =>
      rw [Phone.step_proceed_of_none hc]
      exact h.quiet ⟨rfl, rfl, rfl, rfl, rfl⟩ _
    | some c =>
      rw [Phone.step_proceed hc, Phone.proceed, h.leaving c hc]
      refine ⟨h.accepted, ?_⟩
      rintro _ ⟨⟩
  | send call =>
    simp only [step, phoneStep_single]
    exact h.quiet (quiet_send android l.phone call) _
  | tick ms =>
    simp only [step, phoneStep_single]
    exact h.quiet (p := (l.phone.step android (.tick ms)).1) ⟨rfl, rfl, rfl, rfl, rfl⟩ _

variable (env android) in
theorem desktop_step_of_ofPhone (l : ControlLink) {move : Move} (hmove : Move.OfPhone move) :
    (l.step env android move).desktop = l.desktop ∧
      (l.step env android move).toPhone = l.toPhone := by
  cases move with
  | connectEnd | disconnectDevice | datagram | command | readByDesktop | readByPhone =>
    exact absurd hmove id
  | accept =>
    simp only [step]
    split_ifs <;> exact ⟨rfl, rfl⟩
  | hangup | leave | send | tick => exact ⟨rfl, rfl⟩

variable (env) in
theorem Authenticated.phone_step {tokenBytes : FixedBytes 32}
    (h : Authenticated android l tokenBytes) {c : Connection} (hserves : Serves l.phone c true)
    {move : Move} (hmove : Move.OfPhone move) :
    Serves (l.step env android move).phone c true ∧
        (l.step env android move).phone.pairingManager = l.phone.pairingManager ∨
      Left (l.step env android move) := by
  cases move with
  | connectEnd | disconnectDevice | datagram | command | readByDesktop | readByPhone =>
    exact absurd hmove id
  | accept ip digits keys =>
    have hstep : l.step env android (.accept ip digits keys) = l := if_pos h.accepted
    rw [hstep]
    exact .inl ⟨hserves, rfl⟩
  | hangup =>
    right
    simp only [step, phoneStep_single, Phone.step, hserves.connection, if_pos hserves.reading]
    refine ⟨h.accepted, ?_⟩
    rintro _ ⟨⟩
    rfl
  | leave =>
    left
    simp only [step, phoneStep_single]
    rw [Phone.step_proceed_of_reading hserves.connection hserves.reading]
    exact ⟨hserves, rfl⟩
  | send call =>
    left
    simp only [step, phoneStep_single]
    exact ⟨hserves.quiet (quiet_send android l.phone call), rfl⟩
  | tick ms =>
    left
    simp only [step, phoneStep_single]
    exact ⟨hserves.quiet ⟨rfl, rfl, rfl, rfl, rfl⟩, rfl⟩

namespace Delivery

variable {typed : List.Vector (Fin 10) PairingManager.pinLength}

theorem phone (h : Delivery android l issued executed) (hphase : Phase env android K M pin l)
    {move : Move} (hmove : Move.OfPhone move)
    (hphase' : Phase env android K M pin (l.step env android move)) :
    Delivery android (l.step env android move) issued executed := by
  obtain ⟨hdesktop, htoPhone⟩ := desktop_step_of_ofPhone env android l hmove
  cases h with
  | unserved phone idle =>
    refine of_idle hphase' (htoPhone ▸ idle) fun _ => ?_
    rw [hdesktop]
    exact (hphase.of_unserved phone).2
  | served phone authToken toPhone idle commands unpaired =>
    obtain ⟨_, hauth⟩ := hphase.of_serves phone
    rcases hauth.phone_step env phone hmove with ⟨hserves, hmanager⟩ | hleft
    · refine .served hserves (hmanager ▸ authToken) (htoPhone.trans toPhone) idle commands ?_
      rw [hdesktop]
      exact unpaired
    · have hleft' := of_left (.served phone authToken toPhone idle commands unpaired) hleft []
      rwa [List.append_nil] at hleft'
  | left phone before commands => exact .left (phone.phone hmove) before commands

theorem issuedOf_readByPhone (l : ControlLink) (bytes : FixedBytes 32) (socketOk : Bool) :
    issuedOf (l.traced env android (.readByPhone bytes socketOk)).2 = [] := by
  simp only [traced]
  split
  · rfl
  · split_ifs
    · exact issuedOf_map_executed _
    · rfl

theorem executedOf_readByPhone {line : Text} {rest : List Text} (hl : l.toPhone = line :: rest)
    {c : Connection} {authenticated : Bool} (hserves : Serves l.phone c authenticated)
    (bytes : FixedBytes 32) (socketOk : Bool) :
    executedOf (l.traced env android (.readByPhone bytes socketOk)).2 =
      executedBy (l.phone.handle android line bytes socketOk).2 := by
  have hreading : isReading l.phone = true := by
    simp [isReading, hserves.connection, hserves.reading]
  simp only [traced, hl, hreading, if_true]
  exact executedOf_map_executed _

theorem readByPhone_of_idle (h : Delivery android l issued executed)
    (hidle : l.toPhone = [] ∨ isReading l.phone = false) (bytes : FixedBytes 32)
    (socketOk : Bool) :
    Delivery android (l.step env android (.readByPhone bytes socketOk)) issued
      (executed ++ executedOf (l.traced env android (.readByPhone bytes socketOk)).2) := by
  have hstep : l.step env android (.readByPhone bytes socketOk) = l := by
    rcases hidle with hnil | hreading
    · simp only [step, hnil]
    · exact readByPhone_of_not_isReading hreading bytes socketOk
  have hnone : executedOf (l.traced env android (.readByPhone bytes socketOk)).2 = [] := by
    rcases hidle with hnil | hreading
    · simp only [traced, hnil]
      rfl
    · cases hl : l.toPhone with
      | nil =>
        simp only [traced, hl]
        rfl
      | cons line rest =>
        simp only [traced, hl, hreading, Bool.false_eq_true, if_false]
        rfl
  rw [hstep, hnone, List.append_nil]
  exact h

/-- A client that has not authenticated has nothing executed. -/
theorem readByPhone_unserved (hphase : Phase env android K M pin l) {c : Connection}
    (hserves : Serves l.phone c false) {line : Text} {rest : List Text}
    (hl : l.toPhone = line :: rest) (hidle : ∀ line ∈ l.toPhone, Idle android line)
    (bytes : FixedBytes 32) (socketOk : Bool)
    (hphase' : Phase env android K M pin (l.step env android (.readByPhone bytes socketOk))) :
    Delivery android (l.step env android (.readByPhone bytes socketOk)) []
      ([] ++ executedOf (l.traced env android (.readByPhone bytes socketOk)).2) := by
  have hstep : l.step env android (.readByPhone bytes socketOk) = _ :=
    readByPhone_cons hl hserves bytes socketOk
  rw [executedOf_readByPhone hl hserves,
    Phone.executedBy_handle_unauthenticated hserves.connection hserves.authenticated_eq]
  refine of_idle hphase' (fun line' hline => ?_) fun _ => ?_
  · rw [hstep] at hline
    exact hidle line' (by rw [hl]; exact List.mem_cons_of_mem _ hline)
  · rw [hstep]
    exact (hphase.of_unserved (.inr ⟨c, hserves⟩)).2

/-- An authenticated client has the next command executed, once the lines without a token are
read. -/
theorem readByPhone_served (hreads : android.ReadsJson) {c : Connection}
    {tokenBytes : FixedBytes 32} {stale : List Text} {fresh : List (ℕ × Text)}
    (phone : Serves l.phone c true)
    (authToken : l.phone.pairingManager.authToken = some (Base64.encode tokenBytes.toList))
    (toPhone : l.toPhone = stale ++ fresh.map Prod.snd)
    (idle : ∀ line ∈ stale, Idle android line)
    (commands : ∀ f ∈ executed ++ fresh, IsCommand (Base64.encode tokenBytes.toList) f.2 f.1)
    (unpaired : l.desktop.pairingState ≠ .paired → l.desktop.connection = none ∨
      l.desktop.token = [] ∧ executed ++ fresh = []) {line : Text} {rest : List Text}
    (hl : l.toPhone = line :: rest) (bytes : FixedBytes 32) (socketOk : Bool) :
    Delivery android (l.step env android (.readByPhone bytes socketOk))
      ((executed ++ fresh).map Prod.snd)
      (executed ++ executedOf (l.traced env android (.readByPhone bytes socketOk)).2) := by
  have hstep : l.step env android (.readByPhone bytes socketOk) = _ :=
    readByPhone_cons hl phone bytes socketOk
  obtain ⟨hsame, -⟩ := @Phone.handle_of_authenticated android _ _ phone.connection
    phone.reading phone.authenticated_eq line bytes socketOk
  rw [hsame] at hstep
  rw [executedOf_readByPhone hl phone, hstep]
  rw [hl] at toPhone
  cases stale with
  | cons first stale =>
    obtain ⟨rfl, hrest⟩ := List.cons.inj toPhone
    obtain ⟨hfirst, hstale⟩ := List.forall_mem_cons.mp idle
    rw [Phone.executedBy_handle_idle phone.connection phone.reading phone.authenticated_eq
      authToken hfirst, List.append_nil]
    exact .served phone authToken hrest hstale commands unpaired
  | nil =>
    cases fresh with
    | nil => cases toPhone
    | cons f fresh =>
      obtain ⟨rfl, hrest⟩ := List.cons.inj toPhone
      have hf := commands f (by simp)
      have hlist : executed ++ f :: fresh = (executed ++ [f]) ++ fresh := by simp
      rw [Phone.executedBy_handle_command hreads phone.connection phone.reading
        phone.authenticated_eq authToken hf, hlist]
      rw [hlist] at commands unpaired
      exact .served phone authToken (hrest.trans (List.nil_append _).symm)
        (List.forall_mem_nil _) commands unpaired

theorem readByPhone (h : Delivery android l issued executed)
    (hphase : Phase env android K M pin l) (hreads : android.ReadsJson)
    (bytes : FixedBytes 32) (socketOk : Bool)
    (hphase' : Phase env android K M pin (l.step env android (.readByPhone bytes socketOk))) :
    Delivery android (l.step env android (.readByPhone bytes socketOk)) issued
      (executed ++ executedOf (l.traced env android (.readByPhone bytes socketOk)).2) := by
  cases hl : l.toPhone with
  | nil => exact h.readByPhone_of_idle (.inl hl) bytes socketOk
  | cons line rest =>
    cases h with
    | unserved phone idle =>
      rcases phone with ⟨hnone, haccepted⟩ | ⟨c, hserves⟩
      · have hidle : isReading l.phone = false := by simp [isReading, hnone]
        exact readByPhone_of_idle (.unserved (.inl ⟨hnone, haccepted⟩) idle) (.inr hidle) bytes
          socketOk
      · exact readByPhone_unserved hphase hserves hl idle bytes socketOk hphase'
    | served phone authToken toPhone idle commands unpaired =>
      exact readByPhone_served hreads phone authToken toPhone idle commands unpaired hl bytes
        socketOk
    | left phone before commands =>
      have hidle := not_isReading_of_leaving phone.leaving
      exact readByPhone_of_idle (.left phone before commands) (.inr hidle) bytes socketOk

end Delivery

/-! ## Runs -/

variable {typed : List.Vector (Fin 10) PairingManager.pinLength}

/-- The commands of a move are of the kind that the desktop sends. -/
def Move.Finite : Move → Prop
  | .command c => c.Finite
  | _ => True

theorem Delivery.traced_sent {move : Move} (hmove : ∀ bytes ok, move ≠ .readByPhone bytes ok)
    {lines : List Text} (htoPhone : (l.step env android move).toPhone = l.toPhone ++ lines)
    (hd : Delivery android (l.step env android move)
      (issued ++ if (l.step env android move).desktop.pairingState = .paired then lines else [])
      executed) :
    Delivery android (l.traced env android move).1
      (issued ++ issuedOf (l.traced env android move).2)
      (executed ++ executedOf (l.traced env android move).2) := by
  obtain ⟨hi, he⟩ := traced_of_toPhone hmove htoPhone
  rw [hi, he, List.append_nil]
  exact hd

theorem Delivery.traced_silent {move : Move} (hmove : ∀ bytes ok, move ≠ .readByPhone bytes ok)
    (htoPhone : (l.step env android move).toPhone = l.toPhone)
    (hd : Delivery android (l.step env android move) issued executed) :
    Delivery android (l.traced env android move).1
      (issued ++ issuedOf (l.traced env android move).2)
      (executed ++ executedOf (l.traced env android move).2) :=
  traced_sent hmove (htoPhone.trans (List.append_nil _).symm) (by simpa using hd)

theorem Delivery.traced (h : Delivery android l issued executed) (hcommon : Common env android K M)
    (hagrees : Agrees env android K M typed l) {move : Move} (hm : move.Draws K M)
    (hfinite : Move.Finite move) :
    Delivery android (l.traced env android move).1
      (issued ++ issuedOf (l.traced env android move).2)
      (executed ++ executedOf (l.traced env android move).2) := by
  have hreads := hcommon.reads
  have hphase := hagrees.phase
  have hphase' := (hagrees.step hcommon hm).phase
  cases move with
  | connectEnd ok =>
    exact traced_silent (by simp) (toPhone_connectEnd l ok) (h.connectEnd hphase hreads ok hphase')
  | disconnectDevice =>
    exact traced_silent (by simp)
      (by simp [step, desktopStep, ServiceManager.step, sentByDesktop])
      (h.disconnectDevice hphase hreads hphase')
  | datagram source data =>
    obtain ⟨lines, htoPhone, hd⟩ := h.datagram hphase hreads source data hphase'
    exact traced_sent (by simp) htoPhone hd
  | command c =>
    obtain ⟨lines, htoPhone, hd⟩ := h.command hphase hreads hfinite hphase'
    exact traced_sent (by simp) htoPhone hd
  | readByDesktop myKeys =>
    obtain ⟨lines, htoPhone, hd⟩ := h.readByDesktop hagrees hcommon hphase'
    exact traced_sent (by simp) htoPhone hd
  | readByPhone bytes socketOk =>
    rw [issuedOf_readByPhone, List.append_nil]
    exact h.readByPhone hphase hreads bytes socketOk hphase'
  | accept | hangup | leave | send | tick =>
    refine traced_silent (by simp) (desktop_step_of_ofPhone env android l ?_).2
      (h.phone hphase ?_ hphase') <;> trivial

end ControlLink

end VeyraCam
