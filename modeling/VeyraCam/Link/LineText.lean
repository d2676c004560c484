import VeyraCam.Desktop.ReadLoop
import VeyraCam.Link.CommandLines

/-! # The text of lines

What either side sends over the control connection is printable ASCII, whatever
texts it puts into a line, and the lines of the phone are short, apart from its
capabilities.
-/

namespace VeyraCam

def IsPrintable (c : Char) : Prop := 32 ≤ c.toNat ∧ c.toNat < 127

instance : DecidablePred IsPrintable := fun c =>
  inferInstanceAs (Decidable (32 ≤ c.toNat ∧ c.toNat < 127))

def Printable (text : Text) : Prop := ∀ c ∈ text, IsPrintable c

instance : DecidablePred Printable := fun text =>
  List.decidableBAll IsPrintable text

variable {s t : Text} {fields : List (Text × JsonValue)} {env : Platform} {android : Android}

theorem isPrintable_of_isAlphanum {c : Char} (h : c.isAlphanum = true) : IsPrintable c := by
  change ((decide (65 ≤ c.val ∧ c.val ≤ 90) || (decide (97 ≤ c.val) && decide (c.val ≤ 122))) ||
    (decide (48 ≤ c.val) && decide (c.val ≤ 57))) = true at h
  simp only [Bool.or_eq_true, Bool.and_eq_true, decide_eq_true_eq, UInt32.le_iff_toNat_le] at h
  change ((65 ≤ c.toNat ∧ c.toNat ≤ 90) ∨ (97 ≤ c.toNat ∧ c.toNat ≤ 122)) ∨
    (48 ≤ c.toNat ∧ c.toNat ≤ 57) at h
  unfold IsPrintable
  omega

theorem IsLiteral.printable (h : IsLiteral s) : Printable s := by
  intro c hc
  rcases h.2 c hc with hc | rfl | rfl | rfl
  · exact isPrintable_of_isAlphanum hc
  all_goals decide

namespace Printable

theorem nil : Printable [] := List.forall_mem_nil _

theorem append (hs : Printable s) (ht : Printable t) : Printable (s ++ t) :=
  List.forall_mem_append.mpr ⟨hs, ht⟩

theorem cons {c : Char} (hc : IsPrintable c) (hs : Printable s) : Printable (c :: s) :=
  List.forall_mem_cons.mpr ⟨hc, hs⟩

theorem of_sublist (hs : Printable s) (h : t.Sublist s) : Printable t := fun c hc =>
  hs c (h.mem hc)

theorem escape (hs : Printable s) : Printable (VeyraCam.escape s) := by
  intro c hc
  rcases mem_escape hc with rfl | hc
  · decide
  · exact hs c hc

theorem encode (bs : Bytes) : Printable (Base64.encode bs) :=
  Base64.forall_mem_encode (by decide) (by decide)

theorem generatePin (digits : List.Vector (Fin 10) PairingManager.pinLength) :
    Printable (PairingManager.generatePin digits) :=
  PairingManager.forall_mem_generatePin (by decide) digits

theorem jsonField (hs : Printable s) (ht : Printable t) : Printable (VeyraCam.jsonField s t) := by
  have hquote : IsPrintable quote := by decide
  have hcolon : Printable (quote :: ":".toList) := by decide
  have hend : Printable [quote] := by decide
  exact ((cons hquote hs).append hcolon).append (cons hquote ht) |>.append hend

theorem membersText (h : ∀ f ∈ fields, Printable f.1 ∧ Printable f.2.text) :
    Printable (VeyraCam.membersText fields) := by
  have hquote : IsPrintable quote := by decide
  have hcolon : IsPrintable ':' := by decide
  induction fields with
  | nil => exact nil
  | cons f fields ih =>
    obtain ⟨hf, hfields⟩ := List.forall_mem_cons.mp h
    have hmember : Printable (quote :: f.1 ++ quote :: ':' :: f.2.text) :=
      (cons hquote hf.1).append (cons hquote (cons hcolon hf.2))
    cases fields with
    | nil => exact hmember
    | cons g fields => exact hmember.append (cons (by decide) (ih hfields))

theorem objectText (h : ∀ f ∈ fields, Printable f.1 ∧ Printable f.2.text) :
    Printable (VeyraCam.objectText fields) :=
  cons (by decide) ((membersText h).append (by decide))

theorem buildControlMessage {token type payload : Text} (htoken : Printable token)
    (htype : Printable type) (hpayload : Printable payload) :
    Printable (VeyraCam.buildControlMessage token type payload) := by
  have hcomma : Printable ",".toList := by decide
  have htail (s : Text) (hs : Printable s) :
      Printable (if s.head? = some (.ofNat 123) then s.tail else s) := by
    split_ifs
    · exact hs.of_sublist s.tail_sublist
    · exact hs
  have hinit (s : Text) (hs : Printable s) :
      Printable (if s.getLast? = some (.ofNat 125) then s.dropLast else s) := by
    split_ifs
    · exact hs.of_sublist s.dropLast_sublist
    · exact hs
  have hinner := hinit _ (htail payload hpayload)
  unfold VeyraCam.buildControlMessage
  dsimp only
  generalize (if (if payload.head? = some (Char.ofNat 123) then payload.tail
    else payload).getLast? = some (Char.ofNat 125) then _ else _) = inner at hinner ⊢
  refine ((append (append (by decide) (jsonField (by decide) htype)) ?_).append ?_).append
    (by decide)
  · split_ifs
    · exact nil
    · exact hcomma.append (jsonField (by decide) htoken)
  · split_ifs
    · exact nil
    · exact hcomma.append hinner

end Printable

theorem afterFirst_sublist {needle rest : Text} (h : afterFirst needle s = some rest) :
    rest.Sublist s := by
  induction s with
  | nil => cases h
  | cons c s ih =>
    rw [afterFirst] at h
    split_ifs at h
    · obtain rfl := Option.some.inj h
      exact List.drop_sublist _ _
    · exact (ih h).cons c

theorem extractJsonString_sublist (json key : Text) :
    (extractJsonString json key).Sublist json := by
  unfold extractJsonString
  cases hfound : (afterFirst (quote :: key ++ [quote]) json).bind (afterFirst ":".toList) with
  | none => exact List.nil_sublist _
  | some rest =>
    obtain ⟨rest', hkey, hcolon⟩ := Option.bind_eq_some_iff.mp hfound
    have hrest : rest.Sublist json := (afterFirst_sublist hcolon).trans (afterFirst_sublist hkey)
    have hvalue := (List.dropWhile_sublist (p := (" \t".toList.contains ·)) (l := rest)).trans hrest
    dsimp only
    generalize rest.dropWhile (" \t".toList.contains ·) = value at hvalue ⊢
    match value with
    | [] => exact List.nil_sublist _
    | c :: value =>
      dsimp only
      split_ifs
      · exact (List.takeWhile_sublist _).trans ((List.sublist_cons_self c value).trans hvalue)
      · exact List.nil_sublist _
      · exact ((List.takeWhile_sublist _).cons_cons c).trans hvalue
      · exact List.nil_sublist _

/-! ## The phone -/

/-- A line that the desktop reads as it was written: it is not empty, has nothing in it that ends a
line or a C string, and there is room for it. -/
structure IsLine (line : Text) : Prop where
  ne_nil : line ≠ []
  printable : Printable line
  length_le : line.length + TcpControlClient.recvSize ≤ TcpControlClient.kMaxLineLength

def JsonValue.Short : JsonValue → Prop
  | string s => Printable s ∧ s.length ≤ 48
  | raw text => Printable text ∧ text.length ≤ 48

instance : DecidablePred JsonValue.Short
  | .string s => inferInstanceAs (Decidable (Printable s ∧ s.length ≤ 48))
  | .raw text => inferInstanceAs (Decidable (Printable text ∧ text.length ≤ 48))

theorem JsonValue.Short.escaped {v : JsonValue} (h : v.Short) :
    Printable v.escaped.text ∧ v.escaped.text.length ≤ 98 := by
  cases v with
  | string s =>
    have hlength := length_escape_le s
    have hshort := h.2
    refine ⟨.cons (by decide) (h.1.escape.append (by decide)), ?_⟩
    simp only [JsonValue.escaped, JsonValue.text, List.length_append, List.length_cons,
      List.length_nil]
    omega
  | raw text => exact ⟨h.1, h.2.trans (by decide)⟩

/-- An object of at most three short members is a line. -/
theorem isLine_jsonToString (hcount : fields.length ≤ 3)
    (h : ∀ f ∈ fields, Printable f.1 ∧ f.1.length ≤ 16 ∧ f.2.Short) :
    IsLine (jsonToString fields) := by
  have hescaped : ∀ f ∈ fields.map fun f => (escape f.1, f.2.escaped),
      (Printable f.1 ∧ Printable f.2.text) ∧ f.1.length + f.2.text.length + 4 ≤ 134 := by
    intro f hf
    obtain ⟨⟨key, value⟩, hmem, rfl⟩ := List.mem_map.mp hf
    obtain ⟨hkey, hkeyLength, hvalue⟩ := h _ hmem
    obtain ⟨hprintable, hvalueLength⟩ := hvalue.escaped
    have hle := length_escape_le key
    refine ⟨⟨hkey.escape, hprintable⟩, ?_⟩
    dsimp only at hkeyLength hvalueLength ⊢
    omega
  refine ⟨List.cons_ne_nil _ _, .objectText fun f hf => (hescaped f hf).1, ?_⟩
  have hle := length_objectText_le fun f hf => (hescaped f hf).2
  rw [List.length_map] at hle
  refine (Nat.add_le_add_right hle _).trans ?_
  unfold TcpControlClient.recvSize TcpControlClient.kMaxLineLength
  omega

namespace Phone

variable {phone phone' : Phone} {e : PhoneEvent} {outputs : List PhoneOutput}

theorem isLine_pairingError (reason : String) (h : (JsonValue.string reason.toList).Short) :
    IsLine (pairingError reason) := by
  refine isLine_jsonToString (Nat.le_succ 2) ?_
  simp only [List.forall_mem_cons]
  exact ⟨by decide, ⟨by decide, by decide, h⟩, List.forall_mem_nil _⟩

theorem isLine_pairingChallenge (key : FixedBytes 32) (sessionId : UInt32) :
    IsLine (pairingChallenge (Base64.encode key.toList) sessionId) := by
  have hkey : (JsonValue.string (Base64.encode key.toList)).Short :=
    ⟨.encode _, (length_encode_key key).le.trans (by decide)⟩
  have hlength := length_number_le (n := sessionId.toInt32.toInt)
    ⟨sessionId.toInt32.le_toInt, sessionId.toInt32.toInt_lt⟩
  have hnumber : (JsonValue.number sessionId.toInt32.toInt).Short :=
    ⟨(Command.isLiteral_number _).printable, hlength.trans (by decide)⟩
  refine isLine_jsonToString le_rfl ?_
  simp only [List.forall_mem_cons]
  exact ⟨by decide, ⟨by decide, by decide, hkey⟩, ⟨by decide, by decide, hnumber⟩,
    List.forall_mem_nil _⟩

theorem isLine_pairingOk {token : Option Text}
    (h : ∀ text, token = some text → ∃ bytes : FixedBytes 32, text = Base64.encode bytes.toList) :
    IsLine (pairingOk token) := by
  cases token with
  | none => exact isLine_jsonToString (by decide) (by decide)
  | some text =>
    obtain ⟨bytes, rfl⟩ := h text rfl
    have htoken : (JsonValue.string (Base64.encode bytes.toList)).Short :=
      ⟨.encode _, (length_encode_key bytes).le.trans (by decide)⟩
    refine isLine_jsonToString (Nat.le_succ 2) ?_
    simp only [Option.map_some, Option.toList_some, List.forall_mem_cons]
    exact ⟨by decide, ⟨by decide, by decide, htoken⟩, List.forall_mem_nil _⟩

/-- While a client is served, the token is one that has been minted. -/
def HasMinted (phone : Phone) : Prop :=
  phone.connection ≠ none → ∀ token, phone.pairingManager.authToken = some token →
    ∃ bytes : FixedBytes 32, token = Base64.encode bytes.toList

/-- A client is being served, and the manager has the token it had. -/
theorem HasMinted.kept (h : phone.HasMinted) {c : Connection} (hc : phone.connection = some c)
    {pairingManager : PairingManager}
    (htoken : pairingManager.authToken = phone.pairingManager.authToken) (token : Text)
    (hsome : pairingManager.authToken = some token) :
    ∃ bytes : FixedBytes 32, token = Base64.encode bytes.toList := by
  rw [htoken] at hsome
  exact h (hc ▸ Option.some_ne_none c) token hsome

theorem Transition.hasMinted (ht : Transition android phone e phone' outputs)
    (h : phone.HasMinted) : phone'.HasMinted := by
  cases ht with
  | idle | refuse | command | send | tick => exact h
  | accept =>
    intro _ token hsome
    cases hsome
  | @verify _ _ _ tokenBytes | @verifyWithoutKey _ _ _ tokenBytes =>
    exact fun _ token hsome => ⟨tokenBytes, (Option.some.inj hsome).symm⟩
  | wrongPin responds | notAwaiting responds =>
    exact fun _ => h.kept responds.connection (by simp)
  | lockedOut responds => exact fun _ => h.kept responds.connection rfl
  | hangup connection | complete connection | failToComplete connection | configure connection =>
    exact fun _ => h.kept connection rfl
  | leave => exact fun hc => absurd rfl hc

theorem Transition.isLine (hb : android.lib.Base64Standard)
    (hcapabilities : IsLine (capabilitiesMessage android))
    (ht : Transition android phone e phone' outputs) (h : phone.HasMinted) :
    ∀ text, .message text ∈ outputs → IsLine text := by
  have herror (reason : String) (hreason : (JsonValue.string reason.toList).Short) :
      ∀ text, PhoneOutput.message text ∈ [.message (pairingError reason)] → IsLine text := by
    intro text htext
    obtain rfl := PhoneOutput.message.inj (List.mem_singleton.mp htext)
    exact isLine_pairingError reason hreason
  intro text htext
  cases ht with
  | idle | verify | notAwaiting | hangup | configure | leave | tick => cases htext
  | refuse | lockedOut => exact herror "locked" (by decide) text htext
  | verifyWithoutKey => exact herror "invalid_key" (by decide) text htext
  | wrongPin => exact herror "invalid_pin" (by decide) text htext
  | @accept clientIp digits keys =>
    rcases List.mem_cons.mp htext with he | htext
    · cases he
    · obtain rfl := PhoneOutput.message.inj (List.mem_singleton.mp htext)
      rw [hb.base64Encode]
      exact isLine_pairingChallenge keys.publicKey _
  | command =>
    rcases List.mem_cons.mp htext with he | htext
    · cases he
    · unfold handleControlCommand at htext
      split_ifs at htext
      · obtain rfl := PhoneOutput.message.inj (List.mem_singleton.mp htext)
        exact hcapabilities
      · cases htext
  | complete connection =>
    obtain rfl := PhoneOutput.message.inj (List.mem_singleton.mp htext)
    exact isLine_pairingOk (h.kept connection rfl)
  | failToComplete =>
    rcases List.mem_cons.mp htext with he | htext
    · cases he
    · exact herror "invalid_key" (by decide) text htext
  | send =>
    obtain ⟨d, -, he⟩ := List.mem_map.mp htext
    cases he

theorem isLine_exec (hb : android.lib.Base64Standard)
    (hcapabilities : IsLine (capabilitiesMessage android)) (h : phone.HasMinted)
    (events : List PhoneEvent) :
    (Machine.exec (step android) phone events).1.HasMinted ∧
      ∀ line ∈ ControlLink.sentByPhone (Machine.exec (step android) phone events).2,
        IsLine line := by
  have hguarded : Machine.Guarded (step android) (fun _ _ => True) phone events :=
    Machine.guarded_of_forall (Q := fun _ => True) (fun _ _ => trivial) phone
  obtain ⟨hm, hlines⟩ := hguarded.invariant (I := HasMinted)
    (P := fun o => ∀ text, o = .message text → IsLine text)
    (fun phone e h _ => by
      have ht : Transition android phone e _ _ := transition_step phone e
      have hlines := ht.isLine hb hcapabilities h
      exact ⟨ht.hasMinted h, fun o ho text he => hlines text (he ▸ ho)⟩) h
  refine ⟨hm, fun line hline => ?_⟩
  obtain ⟨o, ho, he⟩ := List.mem_filterMap.mp hline
  cases o with
  | message text =>
    obtain rfl := Option.some.inj he
    exact hlines _ ho text rfl
  | _ => cases he

end Phone

/-! ## The desktop -/

namespace ServiceManager

variable {desktop : ServiceManager}

/-- The texts that the desktop puts into its lines are printable. -/
structure Tells (desktop : ServiceManager) : Prop where
  pin : Printable desktop.pin
  token : Printable desktop.token

theorem printable_pairingResponse (hb : env.lib.Base64Standard) (h : desktop.Tells)
    (myKeys : KeyPair) : Printable (desktop.pairingResponse env myKeys) := by
  have hcomma : Printable ",".toList := by decide
  have htype : Printable (jsonField "type".toList "pairing_response".toList) := by decide
  unfold pairingResponse
  rw [hb.base64Encode]
  exact (((((Printable.append (by decide) htype).append hcomma).append
    (.jsonField (by decide) h.pin)).append hcomma).append
      (.jsonField (by decide) (.encode _))).append (by decide)

theorem sendControlMessage_notMem_report (text line : Text) :
    Output.sendControlMessage line ∉ desktop.report text := by
  unfold report
  split_ifs <;> simp

theorem Tells.onTcpControlMessage (hb : env.lib.Base64Standard) (h : desktop.Tells) {line : Text}
    (hline : Printable line) (myKeys : KeyPair) :
    (desktop.onTcpControlMessage env line myKeys).1.Tells ∧
      ∀ text, .sendControlMessage text ∈ (desktop.onTcpControlMessage env line myKeys).2 →
        Printable text := by
  have hreport (status : Text) : ∀ text, .sendControlMessage text ∈ desktop.report status →
      Printable text := fun text htext => absurd htext (sendControlMessage_notMem_report _ _)
  have htoken := hline.of_sublist (extractJsonString_sublist line "token".toList)
  unfold ServiceManager.onTcpControlMessage
  dsimp only
  split_ifs
  · unfold handlePairingChallenge
    dsimp only
    split_ifs
    · exact ⟨h, fun text htext => by cases htext⟩
    · exact ⟨h, hreport _⟩
    · exact ⟨h, hreport _⟩
    · refine ⟨⟨h.pin, h.token⟩, fun text htext => ?_⟩
      obtain rfl := Output.sendControlMessage.inj (List.mem_singleton.mp htext)
      exact printable_pairingResponse hb h myKeys
    · exact ⟨h, hreport _⟩
  · unfold handlePairingResult
    split_ifs
    · exact ⟨⟨h.pin, h.token⟩, hreport _⟩
    · exact ⟨h, hreport _⟩
    · refine ⟨⟨h.pin, htoken⟩, fun text htext => ?_⟩
      rcases List.mem_append.mp htext with htext | htext
      · exact hreport _ text htext
      · simp only [List.mem_cons, Output.sendControlMessage.injEq, List.not_mem_nil,
          or_false] at htext
        rcases htext with rfl | rfl
        · exact .buildControlMessage htoken (by decide) (by decide)
        · exact .buildControlMessage htoken (by decide) .nil
  · unfold handlePairingResult
    split_ifs with _ hempty
    · exact ⟨⟨h.pin, h.token⟩, hreport _⟩
    · exact ⟨h, hreport _⟩
    · exact absurd rfl hempty
  · exact ⟨h, fun text htext => by cases htext⟩

/-- What comes to the desktop in an event is printable. -/
def Told : Event → Prop
  | .connectBegin _ pin _ => Printable pin
  | .controlLine line _ => Printable line
  | _ => True

theorem Tells.step (hb : env.lib.Base64Standard) (h : desktop.Tells) {e : Event} (he : Told e) :
    (desktop.step env e).1.Tells ∧
      ∀ text, .sendControlMessage text ∈ (desktop.step env e).2 → Printable text := by
  have hnone : ∀ text, Output.sendControlMessage text ∈ [] → Printable text :=
    fun _ htext => by cases htext
  have hreport (status : Text) : ∀ text, .sendControlMessage text ∈ desktop.report status →
      Printable text := fun text htext => absurd htext (sendControlMessage_notMem_report _ _)
  cases e with
  | connectBegin hostIp pin onStatus =>
    unfold ServiceManager.step
    dsimp only
    split_ifs
    · exact ⟨h, hnone⟩
    · exact ⟨⟨he, .nil⟩, hnone⟩
  | connectEnd ok =>
    unfold ServiceManager.step
    dsimp only
    split_ifs
    · exact ⟨h, hnone⟩
    · exact ⟨⟨h.pin, h.token⟩, hreport _⟩
    · exact ⟨⟨h.pin, h.token⟩, hreport _⟩
  | disconnectDevice => exact ⟨⟨h.pin, .nil⟩, hnone⟩
  | controlLine line myKeys =>
    unfold ServiceManager.step
    dsimp only
    split_ifs
    · exact h.onTcpControlMessage hb he myKeys
    · exact ⟨h, hnone⟩
  | datagram source data =>
    unfold ServiceManager.step onDatagram
    dsimp only
    split_ifs
    · refine ⟨⟨h.pin, h.token⟩, fun text htext => ?_⟩
      obtain ⟨call, -, hcall⟩ := List.mem_flatMap.mp htext
      cases call with
      | frameReady frame origins => cases List.mem_singleton.mp hcall
      | missingKeyframe frameId =>
        unfold onCallback at hcall
        split_ifs at hcall
        · obtain rfl := Output.sendControlMessage.inj (List.mem_singleton.mp hcall)
          exact .buildControlMessage h.token (by decide) .nil
        · cases hcall
    · exact ⟨h, hnone⟩

end ServiceManager

theorem Command.printable_message (c : Command) {token : Text} (h : Printable token) :
    Printable (c.message token) := by
  have htype : Printable c.type := by
    cases c <;> dsimp only [type] <;> decide
  have hfields : ∀ f ∈ c.fields, Printable f.1 ∧ Printable f.2.text := by
    have hnames : ∀ name ∈ c.fields.map Prod.fst, Printable name := by
      cases c <;> dsimp only [fields, List.map] <;> decide
    intro f hf
    obtain ⟨text, htext, hliteral⟩ := c.exists_isLiteral f hf
    rw [htext]
    exact ⟨hnames f.1 (List.mem_map_of_mem hf), hliteral.printable⟩
  unfold message
  split_ifs
  · exact .buildControlMessage h htype .nil
  · exact .buildControlMessage h htype (.objectText hfields)

end VeyraCam
