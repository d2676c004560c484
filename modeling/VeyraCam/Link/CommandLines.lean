import VeyraCam.Link.Agreement
import VeyraCam.Link.TokenRoundTrip

/-! # The lines of commands

What an authenticated phone makes of the lines that its desktop sends: a line
with the token of the pairing is executed, and one from before the pairing,
which has no token, is not.
-/

namespace VeyraCam

open JsonText

/-- An authenticated phone does nothing with the line. -/
def Idle (android : Android) (line : Text) : Prop :=
  ∀ field, android.parseJson line = some field →
    field "type".toList = "pairing_response".toList ∨ field "auth_token".toList = []

/-- A message of the desktop to a phone that it has been paired with, or will be. -/
def IsMessage (token line : Text) : Prop :=
  ∃ type ∈ commandTypes, ∃ payload, Payload payload ∧ line = buildControlMessage token type payload

theorem Command.isMessage {c : Command} (hc : c.Finite) (token : Text) :
    IsMessage token (c.message token) := by
  have htype : c.type ∈ commandTypes := by
    cases c <;> dsimp only [type] <;> decide
  have hpayload : Payload (if c.fields.isEmpty then [] else objectText c.fields) := by
    split_ifs
    · exact .empty
    · exact .setter hc
  exact ⟨c.type, htype, _, hpayload, rfl⟩

theorem isWord_of_mem_commandTypes : ∀ type ∈ commandTypes, IsWord type := by
  simp only [commandTypes, List.forall_mem_cons]
  decide

theorem Android.ReadsJson.idle_of_isMessage {android : Android} (h : android.ReadsJson)
    {line : Text} (hline : IsMessage [] line) : Idle android line := by
  obtain ⟨type, htype, payload, hpayload, rfl⟩ := hline
  have hword := isWord_of_mem_commandTypes type htype
  obtain ⟨fields, heq, ⟨members, hmembers, hnames⟩, hnodup⟩ := hpayload.exists_fields [] type
  have hfirst : MemberDenotes InRange ("type".toList, .string type)
      ("type".toList, .scalar (.string type)) := .of_value hword.simple.denotes (by decide)
  have hmap : (("type".toList, Value.scalar (.string type)) :: members).map Prod.fst =
      "type".toList :: fields.map Prod.fst := by rw [List.map_cons, hnames]
  have hswap := (List.Perm.swap "auth_token".toList "type".toList _).nodup_iff.mp hnodup
  obtain ⟨hnot, hnodup⟩ := List.nodup_cons.mp hswap
  rw [← hmap] at hnot hnodup
  have hobject : buildControlMessage [] type payload =
      objectText (("type".toList, .string type) :: fields) := by
    rw [heq, buildControlMessage_objectText]
    rfl
  intro field hfield
  rw [hobject] at hfield
  exact .inr (h.optString_eq_nil (.cons hfirst hmembers) hnodup hfield hnot)

theorem Android.FollowsJson.idle_pairingResponse {env : Platform} {android : Android}
    (h : android.FollowsJson) (hb : env.lib.Base64Standard) {s : ServiceManager}
    {typed : List.Vector (Fin 10) PairingManager.pinLength}
    (hpin : s.pin = PairingManager.generatePin typed) (myKeys : KeyPair) :
    Idle android (s.pairingResponse env myKeys) := by
  obtain ⟨field, hfield, htype, -⟩ := h.response hb hpin myKeys
  intro field' hfield'
  obtain rfl := Option.some.inj (hfield.symm.trans hfield')
  exact .inl htype

/-! ## Lengths -/

theorem utf16Length_le (s : Text) : Phone.utf16Length s ≤ 2 * s.length := by
  unfold Phone.utf16Length
  induction s with
  | nil => simp
  | cons c s ih =>
    rw [List.map_cons, List.sum_cons, List.length_cons]
    split_ifs <;> omega

theorem length_escape_le (s : Text) : (escape s).length ≤ 2 * s.length := by
  induction s with
  | nil => exact le_rfl
  | cons c s ih =>
    rw [escape_cons]
    split_ifs <;> simp only [List.length_cons, List.length_append, List.length_nil] <;> omega

theorem length_buildControlMessage_le (token type payloadJson : Text) :
    (buildControlMessage token type payloadJson).length ≤
      token.length + type.length + payloadJson.length + 32 := by
  have htail (s : Text) :
      (if s.head? = some (.ofNat 123) then s.tail else s).length ≤ s.length := by
    split_ifs <;> simp
  have hinit (s : Text) : (if s.getLast? = some (.ofNat 125) then s.dropLast else s).length ≤
      s.length := by
    split_ifs <;> simp
  have hinner := (hinit (if payloadJson.head? = some (.ofNat 123) then payloadJson.tail
    else payloadJson)).trans (htail payloadJson)
  unfold buildControlMessage
  dsimp only
  generalize (if (if payloadJson.head? = some (Char.ofNat 123) then payloadJson.tail
    else payloadJson).getLast? = some (Char.ofNat 125) then _ else _) = inner at hinner ⊢
  have hrest : (if inner.isEmpty then [] else ",".toList ++ inner).length ≤ inner.length + 1 := by
    split_ifs <;> simp
  have hauth : (if token.isEmpty then [] else
      ",".toList ++ jsonField "auth_token".toList token).length ≤ token.length + 16 := by
    split_ifs <;> simp [jsonField]
  have htype : (jsonField "type".toList type).length = type.length + 9 := by
    simp [jsonField]
  simp only [List.length_append, htype]
  have hbraces : "\x7b".toList.length = 1 ∧ "\x7d".toList.length = 1 := by decide
  omega

namespace FiniteFloat

theorem length_toText_le (x : FiniteFloat) : x.toText.length ≤ 88 := by
  have hlt : x.micros / 10 ^ 6 < 10 ^ 78 := by
    have hle := x.micros_le
    have hpow : (2 : ℕ) ^ 256 < 10 ^ 78 := by decide
    exact (Nat.div_le_self _ _).trans_lt (hle.trans_lt hpow)
  have hwhole : (Nat.toDigits 10 (x.micros / 10 ^ 6)).length ≤ 78 :=
    (Nat.length_toDigits_le_iff (by decide) (by decide)).mpr hlt
  have hdecimals := x.length_decimals
  unfold toText
  split_ifs <;> simp only [List.length_append, List.length_cons, List.length_nil] <;> omega

end FiniteFloat

theorem length_objectText_le {fields : List (Text × JsonValue)} {n : ℕ}
    (h : ∀ f ∈ fields, f.1.length + f.2.text.length + 4 ≤ n) :
    (objectText fields).length ≤ fields.length * n + 2 := by
  have hmembers : (membersText fields).length ≤ fields.length * n := by
    induction fields with
    | nil => exact Nat.zero_le _
    | cons f fields ih =>
      obtain ⟨hf, hfields⟩ := List.forall_mem_cons.mp h
      have ih := ih hfields
      cases fields with
      | nil => simp only [membersText, List.length_append, List.length_cons, List.length_nil]; omega
      | cons g fields =>
        simp only [membersText, List.length_append, List.length_cons, Nat.succ_mul] at ih ⊢
        omega
  simp only [objectText, List.length_append, List.length_cons, List.length_nil]
  omega

theorem length_number_le {n : ℤ} (h : -2 ^ 31 ≤ n ∧ n < 2 ^ 31) :
    (JsonValue.number n).text.length ≤ 11 := by
  have hdigits {k : ℕ} (hk : k ≤ 2 ^ 31) : (Nat.toDigits 10 k).length ≤ 10 :=
    (Nat.length_toDigits_le_iff (by decide) (by decide)).mpr (hk.trans_lt (by decide))
  change (toString n).toList.length ≤ 11
  cases n with
  | ofNat n =>
    rw [show (toString (Int.ofNat n)).toList = Nat.toDigits 10 n from Nat.toList_repr]
    have hn : n ≤ 2 ^ 31 := by
      have hcast : ((n : ℕ) : ℤ) < 2 ^ 31 := h.2
      omega
    exact (hdigits hn).trans (by decide)
  | negSucc n =>
    rw [toList_toString_negSucc, List.length_cons]
    have hle := hdigits (k := n + 1) (by omega)
    omega

theorem Command.length_fields_le {c : Command} (h : c.Finite) :
    (objectText c.fields).length ≤ 256 := by
  have hbool (b : Bool) : (Command.bool b).text.length ≤ 88 := by
    cases b <;> decide
  have hvalue : ∀ f ∈ c.fields, f.2.text.length ≤ 88 := by
    cases c with
    | setZoom zoom =>
      obtain ⟨x, rfl⟩ := h
      exact List.forall_mem_singleton.mpr x.length_toText_le
    | setExposure exposure =>
      exact List.forall_mem_singleton.mpr ((length_number_le h).trans (by decide))
    | setFocus autoFocus distance =>
      obtain ⟨x, rfl⟩ := h
      exact List.forall_mem_cons.mpr ⟨hbool autoFocus,
        List.forall_mem_singleton.mpr x.length_toText_le⟩
    | setTorch enabled => exact List.forall_mem_singleton.mpr (hbool enabled)
    | switchCamera front => exact List.forall_mem_singleton.mpr (hbool front)
    | requestIdr => exact List.forall_mem_nil _
  have hnames : c.fields.length ≤ 2 ∧ ∀ n ∈ c.fields.map Prod.fst, n.length ≤ 9 := by
    rw [← List.length_map (f := Prod.fst)]
    cases c <;> dsimp only [fields, List.map] <;> decide
  have hle := length_objectText_le (n := 101) fun f hf => by
    have hname := hnames.2 f.1 (List.mem_map_of_mem hf)
    have htext := hvalue f hf
    omega
  have hcount := Nat.mul_le_mul_right 101 hnames.1
  omega

theorem Payload.length_le {payload : Text} (h : Payload payload) : payload.length ≤ 256 := by
  cases h with
  | empty => decide
  | streamConfig => decide
  | setter hc => exact Command.length_fields_le hc

/-! ## What an authenticated phone does -/

/-- The line of a command with the token of a phone, and the code it has there. -/
def IsCommand (token line : Text) (code : ℕ) : Prop :=
  ∃ type ∈ commandTypes, ∃ payload, Payload payload ∧
    line = buildControlMessage (escape token) type payload ∧ code = Phone.opCode type

theorem IsMessage.isCommand {token line : Text} (h : IsMessage (escape token) line) :
    ∃ code, IsCommand token line code := by
  obtain ⟨type, htype, payload, hpayload, rfl⟩ := h
  exact ⟨_, type, htype, payload, hpayload, rfl, rfl⟩

def executedBy (outputs : List PhoneOutput) : List (ℕ × Text) :=
  outputs.filterMap fun
    | .controlCommand code line => some (code, line)
    | _ => none

namespace Phone

variable {android : Android} {s : Phone} {c : Connection}

theorem executedBy_handleControlCommand (code : ℕ) :
    executedBy (handleControlCommand android code) = [] := by
  unfold handleControlCommand
  split_ifs <;> rfl

theorem length_token_ne {bs : FixedBytes 32} : Base64.encode bs.toList ≠ [] := by
  intro hnil
  have hlength := length_encode_key bs
  rw [hnil] at hlength
  cases hlength

theorem executedBy_handle_command (h : android.ReadsJson) (hc : s.connection = some c)
    (hr : c.stage = .reading) (ha : c.authenticated = true) {tokenBytes : FixedBytes 32}
    (htoken : s.pairingManager.authToken = some (Base64.encode tokenBytes.toList)) {line : Text}
    {code : ℕ} (hline : IsCommand (Base64.encode tokenBytes.toList) line code)
    (bytes : FixedBytes 32) (socketOk : Bool) :
    executedBy (s.handle android line bytes socketOk).2 = [(code, line)] := by
  obtain ⟨type, htype, payload, hpayload, rfl, rfl⟩ := hline
  have hprintable : ∀ d ∈ Base64.encode tokenBytes.toList, 32 ≤ d.toNat :=
    Base64.forall_mem_encode (by decide) (by decide)
  obtain ⟨field, hfield, hfieldType, hfieldToken⟩ :=
    h.follows.command htype length_token_ne hprintable hpayload
  have hshort : ¬ maxLineLength < utf16Length
      (buildControlMessage (escape (Base64.encode tokenBytes.toList)) type payload) := by
    have hlengths : ∀ t ∈ commandTypes, t.length ≤ 12 := by decide
    have htypeLength := hlengths type htype
    have hle := length_buildControlMessage_le (escape (Base64.encode tokenBytes.toList)) type
      payload
    have hescape := length_escape_le (Base64.encode tokenBytes.toList)
    have hlength := length_encode_key tokenBytes
    have hunits := utf16Length_le
      (buildControlMessage (escape (Base64.encode tokenBytes.toList)) type payload)
    have hpayloadLength := hpayload.length_le
    unfold maxLineLength
    omega
  have hresponse : type ≠ "pairing_response".toList := by
    rintro rfl
    revert htype
    decide
  have hvalid : s.pairingManager.isTokenValid (Base64.encode tokenBytes.toList) = true := by
    rw [PairingManager.isTokenValid, htoken, Option.any_some, decide_eq_true_eq]
  have hstep : s.step android (.line (buildControlMessage
      (escape (Base64.encode tokenBytes.toList)) type payload) bytes) =
      (s, .controlCommand (opCode type) (buildControlMessage
        (escape (Base64.encode tokenBytes.toList)) type payload) ::
          handleControlCommand android (opCode type)) := by
    simp only [step, hc, if_pos hr, handleLine, if_neg hshort, hfield, hfieldType, hresponse,
      hfieldToken, ha, hvalid, if_false, Bool.not_true, Bool.false_eq_true]
  rw [handle_of_reading hstep hc hr, executedBy, List.filterMap_cons]
  exact congrArg _ (executedBy_handleControlCommand (opCode type))

theorem executedBy_handle_idle (hc : s.connection = some c) (hr : c.stage = .reading)
    (ha : c.authenticated = true) {tokenBytes : FixedBytes 32}
    (htoken : s.pairingManager.authToken = some (Base64.encode tokenBytes.toList)) {line : Text}
    (hline : Idle android line) (bytes : FixedBytes 32) (socketOk : Bool) :
    executedBy (s.handle android line bytes socketOk).2 = [] := by
  have ht := @transition_step android s (.line line bytes)
  generalize hs : s.step android (.line line bytes) = result at ht
  obtain ⟨s', outputs⟩ := result
  have hauth {c' : Connection} (hc' : s.connection = some c') : c'.authenticated = true := by
    obtain rfl := Option.some.inj (hc'.symm.trans hc)
    exact ha
  cases ht with
  | idle => rw [handle_of_reading hs hc hr]; rfl
  | @command c' _ field _ hreads htype _ hvalid =>
    exfalso
    have hnil := (hline field hreads.parsed).resolve_left htype
    rw [hnil, PairingManager.isTokenValid, htoken, Option.any_some, decide_eq_true_eq] at hvalid
    have hempty := PairingManager.eq_of_asciiBytes_eq (PairingManager.isAscii_token _) hvalid
    exact length_token_ne hempty.symm
  | verify hresponds | verifyWithoutKey hresponds | wrongPin hresponds | lockedOut hresponds
  | notAwaiting hresponds =>
    exact absurd (hauth hresponds.connection) (by rw [hresponds.unauthenticated]; simp)

/-- Only an authenticated phone executes commands, and only lines. -/
theorem executedBy_step {e : PhoneEvent}
    (he : ∀ line bytes, e = .line line bytes → ∀ c, s.connection = some c →
      c.authenticated = false) :
    executedBy (s.step android e).2 = [] := by
  have ht := @transition_step android s e
  generalize s.step android e = result at ht
  obtain ⟨s', outputs⟩ := result
  cases ht with
  | command hreads _ hauth =>
    rw [he _ _ rfl _ hreads.connection] at hauth
    cases hauth
  | send =>
    refine List.filterMap_eq_nil_iff.mpr fun output houtput => ?_
    obtain ⟨d, -, rfl⟩ := List.mem_map.mp houtput
    rfl
  | _ => rfl

theorem executedBy_handle_unauthenticated (hc : s.connection = some c)
    (ha : c.authenticated = false) (line : Text) (bytes : FixedBytes 32) (socketOk : Bool) :
    executedBy (s.handle android line bytes socketOk).2 = [] := by
  have hproceed (s' : Phone) : executedBy (s'.step android (.proceed socketOk)).2 = [] :=
    executedBy_step fun _ _ he => by cases he
  have hline : executedBy (s.step android (.line line bytes)).2 = [] :=
    executedBy_step fun _ _ _ c' hc' => by
      obtain rfl := Option.some.inj (hc.symm.trans hc')
      exact ha
  unfold executedBy at hproceed hline ⊢
  simp only [handle, Machine.exec_cons, Machine.exec_nil, List.filterMap_append, hline, hproceed,
    List.append_nil]

end Phone

end VeyraCam
