import VeyraCam.Link.CommandLines

/-! # Commands on their way

Which commands of a paired desktop its phone has executed, and which are still to
be read, with what the desktop adds to them. What it sends before it is paired
has no token, and is still on its way when the phone has authenticated.
-/

namespace VeyraCam

namespace ControlLink

/-- A command that a paired desktop sends, or one that the phone executes. -/
inductive Trace where
  | issued (line : Text)
  | executed (code : ℕ) (line : Text)

/-- A move, with the lines that the desktop sends in it if it is paired by then, and the
commands that the phone executes. -/
def traced (env : Platform) (android : Android) (l : ControlLink) (move : Move) :
    ControlLink × List Trace :=
  let l' := l.step env android move
  (l', match move with
    | .readByPhone tokenBytes socketOk =>
      match l.toPhone with
      | [] => []
      | line :: _ =>
        if isReading l.phone then
          (executedBy (l.phone.handle android line tokenBytes socketOk).2).map fun command =>
            .executed command.1 command.2
        else []
    | _ =>
      if l'.desktop.pairingState = .paired then
        (l'.toPhone.drop l.toPhone.length).map .issued
      else [])

def issuedOf (trace : List Trace) : List Text :=
  trace.filterMap fun
    | .issued line => some line
    | .executed _ _ => none

def executedOf (trace : List Trace) : List (ℕ × Text) :=
  trace.filterMap fun
    | .issued _ => none
    | .executed code line => some (code, line)

variable {env : Platform} {android : Android} {K M : Set KeyPair} {pin : Text}
  {l l' : ControlLink} {issued : List Text} {executed : List (ℕ × Text)}

@[simp] theorem issuedOf_map_issued (lines : List Text) :
    issuedOf (lines.map .issued) = lines := by
  simp [issuedOf, List.filterMap_map]

@[simp] theorem executedOf_map_issued (lines : List Text) :
    executedOf (lines.map .issued) = [] := by
  simp [executedOf, List.filterMap_map]

@[simp] theorem issuedOf_map_executed (commands : List (ℕ × Text)) :
    issuedOf (commands.map fun command => .executed command.1 command.2) = [] := by
  simp [issuedOf, List.filterMap_map]

@[simp] theorem executedOf_map_executed (commands : List (ℕ × Text)) :
    executedOf (commands.map fun command => .executed command.1 command.2) = commands := by
  simp [executedOf, List.filterMap_map]

/-- No client has been accepted, or the phone serves one that has not authenticated. -/
def Unserved (l : ControlLink) : Prop :=
  l.phone.connection = none ∧ l.accepted = false ∨ ∃ c, Serves l.phone c false

structure Left (l : ControlLink) : Prop where
  accepted : l.accepted = true
  leaving : ∀ c, l.phone.connection = some c → c.stage = .leaving

/-- The phone serves an authenticated client, and the desktop has its token if it is paired. -/
structure Authenticated (android : Android) (l : ControlLink) (tokenBytes : FixedBytes 32) :
    Prop where
  accepted : l.accepted = true
  phone : ∃ c, Serves l.phone c true
  authToken : l.phone.pairingManager.authToken = some (Base64.encode tokenBytes.toList)
  idle : l.desktop.connecting = false
  token : l.desktop.pairingState = .paired →
    l.desktop.token = escape (Base64.encode tokenBytes.toList)
  toDesktop : ∀ line ∈ l.toDesktop,
    line = Phone.pairingOk (some (Base64.encode tokenBytes.toList)) ∨
      line = Phone.capabilitiesMessage android

theorem Phase.served (h : Phase env android K M pin l) :
    Unserved l ∧ l.desktop.pairingState ≠ .paired ∧ l.desktop.token = [] ∨
      (∃ tokenBytes, Authenticated android l tokenBytes) ∨ Left l := by
  have hunpaired {state : PairingState} (hs : state ≠ .paired) (hd : Unpaired l.desktop state) :
      l.desktop.pairingState ≠ .paired ∧ l.desktop.token = [] := by
    refine ⟨?_, hd.token⟩
    rcases hd.state with he | he <;> rw [he]
    · exact hs
    · decide
  cases h with
  | waiting accepted phone desktop =>
    exact .inl ⟨.inl ⟨phone, accepted⟩, hunpaired (by decide) desktop⟩
  | challenged accepted phone _ _ desktop =>
    exact .inl ⟨.inr ⟨_, phone⟩, hunpaired (by decide) desktop⟩
  | responded accepted phone _ _ _ _ desktop =>
    exact .inl ⟨.inr ⟨_, phone⟩, hunpaired (by decide) desktop⟩
  | refused accepted phone desktop =>
    exact .inl ⟨.inr ⟨_, phone⟩, hunpaired (by decide) desktop⟩
  | authenticated accepted phone _ authToken _ _ holds token toDesktop =>
    exact .inr (.inl ⟨_, accepted, ⟨_, phone⟩, authToken, holds.1, token, toDesktop⟩)
  | left accepted phone => exact .inr (.inr ⟨accepted, phone⟩)

theorem Unserved.not_serves (h : Unserved l) {c : Connection} : ¬ Serves l.phone c true := by
  intro hserves
  rcases h with ⟨hnone, -⟩ | ⟨c', hserves'⟩
  · rw [hserves.connection] at hnone
    cases hnone
  · obtain rfl := Option.some.inj (hserves.connection.symm.trans hserves'.connection)
    exact Bool.false_ne_true (hserves'.authenticated_eq.symm.trans hserves.authenticated_eq)

theorem Left.not_serves (h : Left l) {c : Connection} {authenticated : Bool} :
    ¬ Serves l.phone c authenticated := by
  intro hserves
  have hleaving := h.leaving c hserves.connection
  rw [hserves.reading] at hleaving
  cases hleaving

theorem Unserved.not_left (h : Unserved l) : ¬ Left l := by
  intro hleft
  rcases h with ⟨-, haccepted⟩ | ⟨c, hserves⟩
  · rw [hleft.accepted] at haccepted
    cases haccepted
  · exact hleft.not_serves hserves

theorem Phase.of_unserved (h : Phase env android K M pin l) (hu : Unserved l) :
    l.desktop.pairingState ≠ .paired ∧ l.desktop.token = [] := by
  rcases h.served with ⟨-, hdesktop⟩ | ⟨_, hpaired⟩ | hleft
  · exact hdesktop
  · obtain ⟨c, hserves⟩ := hpaired.phone
    exact absurd hserves hu.not_serves
  · exact absurd hleft hu.not_left

theorem Phase.of_serves (h : Phase env android K M pin l) {c : Connection}
    (hserves : Serves l.phone c true) : ∃ tokenBytes, Authenticated android l tokenBytes := by
  rcases h.served with ⟨hu, -⟩ | hpaired | hleft
  · exact absurd hserves hu.not_serves
  · exact hpaired
  · exact absurd hserves hleft.not_serves

/-- How far commands have come: of those on their way to a phone that serves its desktop, the
ones without a token come first. -/
inductive Delivery (android : Android) (l : ControlLink) :
    List Text → List (ℕ × Text) → Prop
  | unserved (phone : Unserved l) (idle : ∀ line ∈ l.toPhone, Idle android line) :
    Delivery android l [] []
  | served {c : Connection} {tokenBytes : FixedBytes 32} {stale : List Text}
      {fresh executed : List (ℕ × Text)}
      (phone : Serves l.phone c true)
      (authToken : l.phone.pairingManager.authToken = some (Base64.encode tokenBytes.toList))
      (toPhone : l.toPhone = stale ++ fresh.map Prod.snd)
      (idle : ∀ line ∈ stale, Idle android line)
      (commands : ∀ f ∈ executed ++ fresh,
        IsCommand (Base64.encode tokenBytes.toList) f.2 f.1)
      (unpaired : l.desktop.pairingState ≠ .paired → l.desktop.connection = none ∨
        l.desktop.token = [] ∧ executed ++ fresh = []) :
    Delivery android l ((executed ++ fresh).map Prod.snd) executed
  | left {issued : List Text} {executed : List (ℕ × Text)} (phone : Left l)
      (before : executed.map Prod.snd <+: issued)
      (commands : ∀ f ∈ executed, ∃ token, IsCommand token f.2 f.1) :
    Delivery android l issued executed

namespace Delivery

theorem before (h : Delivery android l issued executed) :
    executed.map Prod.snd <+: issued ∧ ∀ f ∈ executed, ∃ token, IsCommand token f.2 f.1 := by
  cases h with
  | unserved => exact ⟨List.prefix_rfl, List.forall_mem_nil _⟩
  | served _ _ _ _ commands =>
    rw [List.map_append]
    exact ⟨List.prefix_append _ _, fun f hf => ⟨_, commands f (List.mem_append_left _ hf)⟩⟩
  | left _ before commands => exact ⟨before, commands⟩

theorem of_idle (hphase : Phase env android K M pin l)
    (hidle : ∀ line ∈ l.toPhone, Idle android line)
    (hdesktop : l.desktop.pairingState ≠ .paired → l.desktop.token = []) :
    Delivery android l [] [] := by
  rcases hphase.served with ⟨hu, -⟩ | ⟨tokenBytes, hpaired⟩ | hleft
  · exact .unserved hu hidle
  · obtain ⟨c, hserves⟩ := hpaired.phone
    have hserved : Delivery android l ((([] : List (ℕ × Text)) ++ []).map Prod.snd) [] :=
      .served hserves hpaired.authToken (by simp) hidle (by simp)
        fun hne => .inr ⟨hdesktop hne, rfl⟩
    exact hserved
  · exact .left hleft List.prefix_rfl (List.forall_mem_nil _)

theorem of_left (h : Delivery android l issued executed) (hleft : Left l') (lines : List Text) :
    Delivery android l' (issued ++ lines) executed :=
  .left hleft (h.before.1.trans (List.prefix_append _ _)) h.before.2

theorem exists_commands {token : Text} {lines : List Text}
    (h : ∀ line ∈ lines, IsMessage (escape token) line) :
    ∃ commands : List (ℕ × Text), commands.map Prod.snd = lines ∧
      ∀ f ∈ commands, IsCommand token f.2 f.1 := by
  induction lines with
  | nil => exact ⟨[], rfl, List.forall_mem_nil _⟩
  | cons line lines ih =>
    obtain ⟨hline, hlines⟩ := List.forall_mem_cons.mp h
    obtain ⟨code, hcode⟩ := hline.isCommand
    obtain ⟨commands, rfl, hcommands⟩ := ih hlines
    exact ⟨(code, line) :: commands, rfl, List.forall_mem_cons.mpr ⟨hcode, hcommands⟩⟩

/-- A paired desktop sends commands with the token of the phone. -/
theorem post_paired {c : Connection} {tokenBytes : FixedBytes 32} {stale lines : List Text}
    {fresh : List (ℕ × Text)} (hphase : Phase env android K M pin l)
    (phone : Serves l.phone c true)
    (authToken : l.phone.pairingManager.authToken = some (Base64.encode tokenBytes.toList))
    (htoPhone : l.toPhone = stale ++ fresh.map Prod.snd ++ lines)
    (idle : ∀ line ∈ stale, Idle android line)
    (commands : ∀ f ∈ executed ++ fresh, IsCommand (Base64.encode tokenBytes.toList) f.2 f.1)
    (hpaired : l.desktop.pairingState = .paired)
    (hlines : ∀ line ∈ lines, IsMessage l.desktop.token line) :
    Delivery android l ((executed ++ fresh).map Prod.snd ++ lines) executed := by
  obtain ⟨tokenBytes', hauth⟩ := hphase.of_serves phone
  have htoken := hauth.token hpaired
  rw [Option.some.inj (hauth.authToken.symm.trans authToken)] at htoken
  obtain ⟨sent, rfl, hsent⟩ := exists_commands (htoken ▸ hlines)
  rw [← List.map_append, List.append_assoc]
  refine .served phone authToken ?_ idle ?_ fun hne => absurd hpaired hne
  · rw [htoPhone, List.map_append, List.append_assoc]
  · rw [← List.append_assoc]
    exact List.forall_mem_append.mpr ⟨commands, hsent⟩

/-- A desktop that is not paired has no token, and the phone does nothing with its lines. -/
theorem post_unpaired {c : Connection} {tokenBytes : FixedBytes 32} {stale lines : List Text}
    {fresh : List (ℕ × Text)} (hreads : android.ReadsJson) (phone : Serves l.phone c true)
    (authToken : l.phone.pairingManager.authToken = some (Base64.encode tokenBytes.toList))
    (htoPhone : l.toPhone = stale ++ fresh.map Prod.snd ++ lines)
    (idle : ∀ line ∈ stale, Idle android line)
    (commands : ∀ f ∈ executed ++ fresh, IsCommand (Base64.encode tokenBytes.toList) f.2 f.1)
    (unpaired : l.desktop.connection = none ∨ l.desktop.token = [] ∧ executed ++ fresh = [])
    (hlines : ∀ line ∈ lines, Idle android line ∨ IsMessage l.desktop.token line)
    (hopen : lines ≠ [] → l.desktop.connection ≠ none) :
    Delivery android l ((executed ++ fresh).map Prod.snd) executed := by
  cases lines with
  | nil =>
    rw [List.append_nil] at htoPhone
    exact .served phone authToken htoPhone idle commands fun _ => unpaired
  | cons line lines =>
    obtain ⟨hempty, hnil⟩ := unpaired.resolve_left (hopen (by simp))
    obtain ⟨rfl, rfl⟩ := List.append_eq_nil_iff.mp hnil
    have hstale : l.toPhone = (stale ++ line :: lines) ++ ([] : List (ℕ × Text)).map Prod.snd := by
      rw [htoPhone]
      simp
    refine .served phone authToken hstale ?_ commands fun _ => .inr ⟨hempty, rfl⟩
    refine List.forall_mem_append.mpr ⟨idle, fun line' hline => ?_⟩
    exact (hlines line' hline).elim id fun hm => hreads.idle_of_isMessage (hempty ▸ hm)

theorem post (h : Delivery android l issued executed) (hphase : Phase env android K M pin l)
    (hphase' : Phase env android K M pin l') (hreads : android.ReadsJson)
    (hphone : l'.phone = l.phone) (haccepted : l'.accepted = l.accepted) {lines : List Text}
    (htoPhone : l'.toPhone = l.toPhone ++ lines)
    (hlines : ∀ line ∈ lines, Idle android line ∨ IsMessage l'.desktop.token line)
    (hpaired : l'.desktop.pairingState = .paired →
      ∀ line ∈ lines, IsMessage l'.desktop.token line)
    (hunpaired : ∀ tokenBytes, Authenticated android l tokenBytes →
      l'.desktop.pairingState ≠ .paired → l'.desktop.connection = none ∧ lines = [] ∨
        l.desktop.pairingState ≠ .paired ∧ l'.desktop.token = l.desktop.token ∧
          l'.desktop.connection = l.desktop.connection ∧
          (lines ≠ [] → l.desktop.connection ≠ none)) :
    Delivery android l' (issued ++ if l'.desktop.pairingState = .paired then lines else [])
      executed := by
  cases h with
  | unserved phone idle =>
    have hu : Unserved l' := by
      rw [Unserved, hphone, haccepted]
      exact phone
    obtain ⟨hne, htoken⟩ := hphase'.of_unserved hu
    rw [if_neg hne]
    refine .unserved hu fun line hline => ?_
    rw [htoPhone] at hline
    rcases List.mem_append.mp hline with hline | hline
    · exact idle line hline
    · exact (hlines line hline).elim id fun hm => hreads.idle_of_isMessage (htoken ▸ hm)
  | served phone authToken toPhone idle commands unpaired =>
    obtain ⟨tokenBytes, hauth⟩ := hphase.of_serves phone
    rw [← hphone] at phone authToken
    rw [toPhone] at htoPhone
    split_ifs with hstate
    · exact post_paired hphase' phone authToken htoPhone idle commands hstate (hpaired hstate)
    · rw [List.append_nil]
      rcases hunpaired tokenBytes hauth hstate with ⟨hnone, rfl⟩ | ⟨hne, htoken, hsame, hopen⟩
      · exact post_unpaired hreads phone authToken htoPhone idle commands (.inl hnone) hlines
          fun hnil => absurd rfl hnil
      · refine post_unpaired hreads phone authToken htoPhone idle commands ?_ hlines ?_
        · rw [htoken, hsame]
          exact unpaired hne
        · rwa [hsame]
  | left phone before commands =>
    refine of_left (.left phone before commands) ⟨haccepted.trans phone.accepted, ?_⟩ _
    rw [hphone]
    exact phone.leaving

end Delivery

/-! ## The desktop -/

theorem traced_of_toPhone {move : Move} (hmove : ∀ bytes ok, move ≠ .readByPhone bytes ok)
    {lines : List Text} (h : (l.step env android move).toPhone = l.toPhone ++ lines) :
    issuedOf (l.traced env android move).2 =
        (if (l.step env android move).desktop.pairingState = .paired then lines else []) ∧
      executedOf (l.traced env android move).2 = [] := by
  have htrace : (l.traced env android move).2 =
      if (l.step env android move).desktop.pairingState = .paired then lines.map .issued
      else [] := by
    cases move with
    | readByPhone bytes ok => exact absurd rfl (hmove bytes ok)
    | _ => simp only [traced, h, List.drop_left]
  rw [htrace]
  split_ifs
  · exact ⟨issuedOf_map_issued lines, executedOf_map_issued lines⟩
  · exact ⟨rfl, rfl⟩

theorem toPhone_connectEnd (l : ControlLink) (ok : Bool) :
    (l.step env android (.connectEnd ok)).toPhone = l.toPhone := by
  have hsent : sentByDesktop (l.desktop.step env (.connectEnd ok)).2 = [] := by
    simp only [ServiceManager.step]
    split_ifs
    · rfl
    · exact ServiceManager.sentByDesktop_report _ _
    · exact ServiceManager.sentByDesktop_report _ _
  simp only [step, desktopStep, hsent, ite_self, List.append_nil]

/-- What the desktop sends on a line: its response to a challenge, or its first commands. -/
theorem sentByDesktop_cases (s : ServiceManager) (message : Text) (myKeys : KeyPair) :
    sentByDesktop (s.onTcpControlMessage env message myKeys).2 = [] ∨
    (sentByDesktop (s.onTcpControlMessage env message myKeys).2 =
        [s.pairingResponse env myKeys] ∧
      (s.onTcpControlMessage env message myKeys).1.pairingState = .awaitingPairingOk) ∨
    (sentByDesktop (s.onTcpControlMessage env message myKeys).2 =
        [buildControlMessage (s.onTcpControlMessage env message myKeys).1.token
            "startStream".toList ServiceManager.streamConfig,
          buildControlMessage (s.onTcpControlMessage env message myKeys).1.token
            "hello".toList []] ∧
      (s.onTcpControlMessage env message myKeys).1.pairingState = .paired) := by
  unfold ServiceManager.onTcpControlMessage
  dsimp only
  split_ifs
  · unfold ServiceManager.handlePairingChallenge
    dsimp only
    split_ifs
    · exact .inl rfl
    · exact .inl (ServiceManager.sentByDesktop_report _ _)
    · exact .inl (ServiceManager.sentByDesktop_report _ _)
    · exact .inr (.inl ⟨rfl, rfl⟩)
    · exact .inl (ServiceManager.sentByDesktop_report _ _)
  · unfold ServiceManager.handlePairingResult
    split_ifs with herror hempty
    · exact absurd herror (by simp)
    · exact .inl (ServiceManager.sentByDesktop_report _ _)
    · refine .inr (.inr ⟨?_, rfl⟩)
      have hreport := ServiceManager.sentByDesktop_report s "paired".toList
      unfold sentByDesktop at hreport ⊢
      rw [List.filterMap_append, hreport]
      rfl
  · unfold ServiceManager.handlePairingResult
    split_ifs with _ hempty
    · exact .inl (ServiceManager.sentByDesktop_report _ _)
    · exact .inl (ServiceManager.sentByDesktop_report _ _)
    · exact absurd rfl hempty
  · exact .inl rfl

/-- The first commands of a desktop that is paired by then have its token. -/
theorem isMessage_of_mem_sentByDesktop {s : ServiceManager} {message : Text} {myKeys : KeyPair}
    (hpaired : (s.onTcpControlMessage env message myKeys).1.pairingState = .paired) :
    ∀ line ∈ sentByDesktop (s.onTcpControlMessage env message myKeys).2,
      IsMessage (s.onTcpControlMessage env message myKeys).1.token line := by
  rcases @sentByDesktop_cases env s message myKeys with he | ⟨-, hstate⟩ | ⟨he, -⟩
  · rw [he]
    exact List.forall_mem_nil _
  · rw [hstate] at hpaired
    cases hpaired
  · rw [he]
    refine List.forall_mem_cons.mpr ⟨?_, List.forall_mem_singleton.mpr ?_⟩
    · exact ⟨_, by decide, _, .streamConfig, rfl⟩
    · exact ⟨_, by decide, _, .empty, rfl⟩

namespace Delivery

variable {typed : List.Vector (Fin 10) PairingManager.pinLength}

theorem connectEnd (h : Delivery android l issued executed) (hphase : Phase env android K M pin l)
    (hreads : android.ReadsJson) (ok : Bool)
    (hphase' : Phase env android K M pin (l.step env android (.connectEnd ok))) :
    Delivery android (l.step env android (.connectEnd ok)) issued executed := by
  have htoPhone : (l.step env android (.connectEnd ok)).toPhone = l.toPhone ++ [] := by
    rw [toPhone_connectEnd, List.append_nil]
  have hpost := h.post hphase hphase' hreads rfl rfl htoPhone (List.forall_mem_nil _)
    (fun _ => List.forall_mem_nil _) fun tokenBytes hauth hne => by
      have hsame : (l.step env android (.connectEnd ok)).desktop = l.desktop := by
        simp only [step, desktopStep, ServiceManager.step, hauth.idle, Bool.not_false, if_true]
      rw [hsame] at hne ⊢
      exact .inr ⟨hne, rfl, rfl, fun hnil => absurd rfl hnil⟩
  simpa using hpost

theorem disconnectDevice (h : Delivery android l issued executed)
    (hphase : Phase env android K M pin l) (hreads : android.ReadsJson)
    (hphase' : Phase env android K M pin (l.step env android .disconnectDevice)) :
    Delivery android (l.step env android .disconnectDevice) issued executed := by
  have htoPhone : (l.step env android .disconnectDevice).toPhone = l.toPhone ++ [] := by
    simp [step, desktopStep, ServiceManager.step, sentByDesktop]
  have hpost := h.post hphase hphase' hreads rfl rfl htoPhone (List.forall_mem_nil _)
    (fun _ => List.forall_mem_nil _) fun _ _ _ => .inl ⟨rfl, rfl⟩
  simpa using hpost

/-- A move in which the desktop keeps what it has of the pairing, and sends messages if it is
connected. -/
theorem messages (h : Delivery android l issued executed) (hphase : Phase env android K M pin l)
    (hphase' : Phase env android K M pin l') (hreads : android.ReadsJson)
    (hphone : l'.phone = l.phone) (haccepted : l'.accepted = l.accepted) {lines : List Text}
    (htoPhone : l'.toPhone = l.toPhone ++ lines)
    (hstate : l'.desktop.pairingState = l.desktop.pairingState)
    (htoken : l'.desktop.token = l.desktop.token)
    (hconnection : l'.desktop.connection = l.desktop.connection)
    (hlines : ∀ line ∈ lines, IsMessage l.desktop.token line)
    (hopen : lines ≠ [] → l.desktop.connection ≠ none) :
    Delivery android l' (issued ++ if l'.desktop.pairingState = .paired then lines else [])
      executed := by
  rw [← htoken] at hlines
  refine h.post hphase hphase' hreads hphone haccepted htoPhone
    (fun line hline => .inr (hlines line hline)) (fun _ => hlines) fun _ _ hne => .inr ?_
  rw [hstate] at hne
  exact ⟨hne, htoken, hconnection, hopen⟩

theorem datagram (h : Delivery android l issued executed) (hphase : Phase env android K M pin l)
    (hreads : android.ReadsJson) (source : UInt32) (data : Bytes)
    (hphase' : Phase env android K M pin (l.step env android (.datagram source data))) :
    ∃ lines, (l.step env android (.datagram source data)).toPhone = l.toPhone ++ lines ∧
      Delivery android (l.step env android (.datagram source data))
        (issued ++ if (l.step env android (.datagram source data)).desktop.pairingState = .paired
          then lines else []) executed := by
  have hframe : (l.desktop.onDatagram env source data).1 =
      { l.desktop with reassembler := (l.desktop.onDatagram env source data).1.reassembler } := by
    unfold ServiceManager.onDatagram
    split_ifs <;> rfl
  have hdesktop : (l.step env android (.datagram source data)).desktop =
      (l.desktop.onDatagram env source data).1 := rfl
  refine ⟨_, rfl, h.messages hphase hphase' hreads rfl rfl rfl ?_ ?_ ?_ ?_ ?_⟩
  · rw [hdesktop, hframe]
  · rw [hdesktop, hframe]
  · rw [hdesktop, hframe]
  · intro line hline
    split_ifs at hline
    · rw [l.desktop.sentByDesktop_onDatagram source data line hline]
      exact Command.isMessage (c := .requestIdr) trivial _
    · cases hline
  · intro hne hnone
    simp [hnone] at hne

theorem command (h : Delivery android l issued executed) (hphase : Phase env android K M pin l)
    (hreads : android.ReadsJson) {c : Command} (hc : c.Finite)
    (hphase' : Phase env android K M pin (l.step env android (.command c))) :
    ∃ lines, (l.step env android (.command c)).toPhone = l.toPhone ++ lines ∧
      Delivery android (l.step env android (.command c))
        (issued ++ if (l.step env android (.command c)).desktop.pairingState = .paired
          then lines else []) executed := by
  by_cases hsends : (l.desktop.isStreaming && l.desktop.connection.isSome) = true
  · have hstep : l.step env android (.command c) =
        { l with toPhone := l.toPhone ++ [c.message l.desktop.token] } := if_pos hsends
    rw [hstep] at hphase' ⊢
    refine ⟨_, rfl, h.messages hphase hphase' hreads rfl rfl rfl rfl rfl rfl ?_ fun _ => ?_⟩
    · exact List.forall_mem_singleton.mpr (Command.isMessage hc _)
    · rw [Bool.and_eq_true, Option.isSome_iff_ne_none] at hsends
      exact hsends.2
  · have hstep : l.step env android (.command c) = l := if_neg hsends
    rw [hstep]
    exact ⟨[], by simp, by simpa using h⟩

theorem readByDesktop (h : Delivery android l issued executed)
    (hagrees : Agrees env android K M typed l) (hcommon : Common env android K M)
    {myKeys : KeyPair} (hphase' : Phase env android K M (PairingManager.generatePin typed)
      (l.step env android (.readByDesktop myKeys))) :
    ∃ lines, (l.step env android (.readByDesktop myKeys)).toPhone = l.toPhone ++ lines ∧
      Delivery android (l.step env android (.readByDesktop myKeys))
        (issued ++ if (l.step env android (.readByDesktop myKeys)).desktop.pairingState = .paired
          then lines else []) executed := by
  cases hl : l.toDesktop with
  | nil =>
    have hstep : l.step env android (.readByDesktop myKeys) = l := by simp only [step, hl]
    rw [hstep]
    exact ⟨[], by simp, by simpa using h⟩
  | cons line rest =>
    by_cases hopen : l.desktop.connection.isSome = true
    swap
    · have hstep : l.step env android (.readByDesktop myKeys) = l := by
        simp only [step, hl, if_neg hopen]
      rw [hstep]
      exact ⟨[], by simp, by simpa using h⟩
    have hstep : l.step env android (.readByDesktop myKeys) =
        { l with
          desktop := (l.desktop.onTcpControlMessage env line myKeys).1
          toDesktop := rest
          toPhone := l.toPhone ++
            sentByDesktop (l.desktop.onTcpControlMessage env line myKeys).2 } := by
      simp only [step, hl, if_pos hopen]
      exact desktopStep_controlLine (l := { l with toDesktop := rest }) hopen line myKeys
    rw [hstep] at hphase' ⊢
    refine ⟨_, rfl, h.post hagrees.phase hphase' hcommon.reads rfl rfl rfl ?_ ?_ ?_⟩
    · intro sent hsent
      rcases @sentByDesktop_cases env l.desktop line myKeys with he | ⟨he, -⟩ | ⟨-, hpaired⟩
      · rw [he] at hsent
        cases hsent
      · rw [he] at hsent
        rw [List.mem_singleton.mp hsent]
        exact .inl (hcommon.reads.follows.idle_pairingResponse hcommon.base64 hagrees.pin myKeys)
      · exact .inr (isMessage_of_mem_sentByDesktop hpaired sent hsent)
    · exact isMessage_of_mem_sentByDesktop
    · intro tokenBytes hauth hne
      obtain rfl | rfl := hauth.toDesktop line (by rw [hl]; exact List.mem_cons_self)
      · rw [ServiceManager.onTcpControlMessage_ok] at hne
        exact absurd rfl hne
      · rw [ServiceManager.onTcpControlMessage_capabilities] at hne ⊢
        exact .inr ⟨hne, rfl, rfl, fun hnil => absurd rfl hnil⟩

end Delivery

end ControlLink

end VeyraCam
