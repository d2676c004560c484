import VeyraCam.Library.BinaryFloat
import VeyraCam.Link.Handling

/-! # The token on its way back

The desktop does not unescape the token that it extracts, and does not escape it
when it sends a command. The two omissions cancel: the escapes that the phone's
JSON library wrote come back to its parser as they were.
-/

namespace VeyraCam

open JsonText

/-! ## Payloads -/

/-- A finite `float`, as a sign and a magnitude. -/
structure FiniteFloat where
  negative : Bool
  magnitude : ℚ≥0
  lt : magnitude < 2 ^ 128

namespace FiniteFloat

def micros (x : FiniteFloat) : ℕ := BinaryFloat.roundHalfEven ((10 ^ 6 : ℕ) * x.magnitude)

def decimals (x : FiniteFloat) : Text :=
  let digits := Nat.toDigits 10 (x.micros % 10 ^ 6)
  .replicate (6 - digits.length) '0' ++ digits

def toText (x : FiniteFloat) : Text :=
  (if x.negative then ['-'] else []) ++
    (Nat.toDigits 10 (x.micros / 10 ^ 6) ++ '.' :: x.decimals)

variable (x : FiniteFloat)

theorem micros_le : x.micros ≤ 2 ^ 256 := by
  have hround := BinaryFloat.roundHalfEven_le (10 ^ 6 * x.magnitude)
  have hmagnitude := mul_le_mul_right x.lt.le (10 ^ 6 : ℚ≥0)
  have hle : (x.micros : ℚ≥0) ≤ (2 ^ 256 : ℕ) := by
    calc (x.micros : ℚ≥0) ≤ 10 ^ 6 * x.magnitude + 1 / 2 := hround
      _ ≤ 10 ^ 6 * 2 ^ 128 + 1 / 2 := add_le_add_left hmagnitude _
      _ ≤ (2 ^ 256 : ℕ) := by qify; norm_num
  exact_mod_cast hle

theorem length_decimals : x.decimals.length = 6 := by
  have hle : (Nat.toDigits 10 (x.micros % 10 ^ 6)).length ≤ 6 :=
    (Nat.length_toDigits_le_iff (by decide) (by decide)).mpr (Nat.mod_lt _ (by decide))
  rw [decimals, List.length_append, List.length_replicate]
  omega

theorem isDigit_of_mem_decimals : ∀ c ∈ x.decimals, c.isDigit = true := by
  intro c hc
  rcases List.mem_append.mp hc with hc | hc
  · rw [List.eq_of_mem_replicate hc]
    rfl
  · exact JsonText.isDigit_of_mem_toDigits c hc

theorem ofDigitChars_decimals : Nat.ofDigitChars 10 x.decimals (x.micros / 10 ^ 6) = x.micros := by
  rw [Nat.ofDigitChars_eq_ofDigitChars_zero, length_decimals, decimals, Nat.ofDigitChars_append,
    Nat.ofDigitChars_replicate_zero, Nat.mul_zero, Nat.ofDigitChars_ten_toDigits]
  exact Nat.div_add_mod x.micros (10 ^ 6)

theorem exists_spells_toText : ∃ y, Spells x.toText (.decimal y) ∧ InRange y := by
  have hne : x.decimals ≠ [] := by
    intro hnil
    have hlength := x.length_decimals
    rw [hnil] at hlength
    cases hlength
  have hvalue : (Nat.ofDigitChars 10 x.decimals (x.micros / 10 ^ 6) : ℚ) /
      10 ^ x.decimals.length = x.micros / 10 ^ 6 := by
    rw [ofDigitChars_decimals, length_decimals]
  have hnonneg : (0 : ℚ) ≤ x.micros / 10 ^ 6 := by positivity
  have hdiv : (x.micros : ℚ) / 10 ^ 6 ≤ x.micros := div_le_self (by positivity) (by norm_num)
  have hbound : |(x.micros : ℚ) / 10 ^ 6| ≤ (largestNumber : ℚ) := by
    rw [abs_of_nonneg hnonneg]
    exact hdiv.trans (Nat.cast_le.mpr (le_largestNumber x.micros_le))
  unfold toText
  cases x.negative with
  | false =>
    have hspells := spells_decimal (x.micros / 10 ^ 6) hne x.isDigit_of_mem_decimals
    rw [hvalue] at hspells
    exact ⟨_, hspells, hbound⟩
  | true =>
    have hspells := spells_minus_decimal (x.micros / 10 ^ 6) hne x.isDigit_of_mem_decimals
    rw [hvalue] at hspells
    exact ⟨_, hspells, (abs_neg _).trans_le hbound⟩

theorem isLiteral_toText : IsLiteral x.toText := by
  obtain ⟨y, hspells, -⟩ := x.exists_spells_toText
  exact isLiteral_of_spells hspells

def floatText : FloatText := ⟨x.toText, x.isLiteral_toText⟩

theorem denotes_floatText : ∃ v, Denotes InRange (JsonValue.raw x.floatText.val).text v := by
  obtain ⟨y, hspells, hbound⟩ := x.exists_spells_toText
  exact ⟨.scalar (.decimal y), hspells.denotes hbound⟩

end FiniteFloat

def Command.Finite : Command → Prop
  | setZoom zoom => ∃ x : FiniteFloat, zoom = x.floatText
  | setExposure exposure => -2 ^ 31 ≤ exposure ∧ exposure < 2 ^ 31
  | setFocus _ distance => ∃ x : FiniteFloat, distance = x.floatText
  | setTorch _ | switchCamera _ | requestIdr => True

def commandTypes : List Text :=
  ["startStream".toList, "hello".toList, "setZoom".toList, "setExposure".toList,
    "setFocus".toList, "setTorch".toList, "switchCamera".toList, "requestIdr".toList]

/-- The payloads they are sent with. -/
inductive Payload : Text → Prop
  | empty : Payload []
  | streamConfig : Payload ServiceManager.streamConfig
  | setter {c : Command} (h : c.Finite) : Payload (objectText c.fields)

theorem denotes_bool (b : Bool) : Denotes InRange (Command.bool b).text (.scalar (.bool b)) := by
  have hword : (Command.bool b).text.all isWordChar = true := by
    cases b <;> decide
  have hspells : Spells (Command.bool b).text (.bool b) :=
    ⟨List.all_eq_true.mp hword, by cases b <;> rfl⟩
  exact hspells.denotes trivial

theorem denotes_int32 {n : ℤ} (h : -2 ^ 31 ≤ n ∧ n < 2 ^ 31) :
    Denotes InRange (JsonValue.number n).text (.scalar (.integer n)) := by
  have hsmall : n.natAbs ≤ 2 ^ 256 := by omega
  have hcast : |(n : ℚ)| = n.natAbs := by rw [Nat.cast_natAbs, Int.cast_abs]
  apply denotes_number
  rw [InRange, hcast]
  exact Nat.cast_le.mpr (le_largestNumber hsmall)

/-- The members of an object stand for some values, under their names. -/
def Denoted (fields : List (Text × JsonValue)) : Prop :=
  ∃ members, List.Forall₂ (MemberDenotes InRange) fields members ∧
    members.map Prod.fst = fields.map Prod.fst

theorem denoted_nil : Denoted [] := ⟨[], .nil, rfl⟩

theorem Denoted.cons {fields : List (Text × JsonValue)} (h : Denoted fields) {k : Text}
    (hk : IsWord k) {v : JsonValue} {value : Value} (hv : Denotes InRange v.text value) :
    Denoted ((k, v) :: fields) := by
  obtain ⟨members, hmembers, hnames⟩ := h
  exact ⟨(k, value) :: members, .cons (.of_value hv hk) hmembers,
    congrArg (k :: ·) hnames⟩

theorem Command.denoted {c : Command} (h : c.Finite) : Denoted c.fields := by
  cases c with
  | setZoom zoom =>
    obtain ⟨x, rfl⟩ := h
    obtain ⟨v, hv⟩ := x.denotes_floatText
    exact denoted_nil.cons (by decide) hv
  | setExposure exposure => exact denoted_nil.cons (by decide) (denotes_int32 h)
  | setFocus autoFocus distance =>
    obtain ⟨x, rfl⟩ := h
    obtain ⟨v, hv⟩ := x.denotes_floatText
    exact (denoted_nil.cons (by decide) hv).cons (by decide) (denotes_bool autoFocus)
  | setTorch enabled => exact denoted_nil.cons (by decide) (denotes_bool enabled)
  | switchCamera front => exact denoted_nil.cons (by decide) (denotes_bool front)
  | requestIdr => exact denoted_nil

def videoFields : List (Text × JsonValue) :=
  [("width".toList, .number 1280), ("height".toList, .number 720), ("fps".toList, .number 30),
    ("bitrate".toList, .number 2500000)]

def streamFields : List (Text × JsonValue) := [("video".toList, .raw (objectText videoFields))]

theorem streamConfig_eq : ServiceManager.streamConfig = objectText streamFields := by decide

theorem denoted_streamFields : Denoted streamFields := by
  have hbitrate := denoted_nil.cons (k := "bitrate".toList) (by decide)
    (denotes_int32 (n := 2500000) (by decide))
  have hfps := hbitrate.cons (k := "fps".toList) (by decide) (denotes_int32 (n := 30) (by decide))
  have hheight := hfps.cons (k := "height".toList) (by decide)
    (denotes_int32 (n := 720) (by decide))
  obtain ⟨members, hmembers, -⟩ := hheight.cons (k := "width".toList) (by decide)
    (denotes_int32 (n := 1280) (by decide))
  exact denoted_nil.cons (by decide) (denotes_objectText hmembers)

/-- A payload is an object, or empty as if it were one without members. -/
theorem Payload.exists_fields {payload : Text} (h : Payload payload) (token type : Text) :
    ∃ fields, buildControlMessage token type payload =
        buildControlMessage token type (objectText fields) ∧
      Denoted fields ∧
      ("type".toList :: "auth_token".toList :: fields.map Prod.fst).Nodup := by
  cases h with
  | empty => exact ⟨[], buildControlMessage_nil token type, denoted_nil, by decide⟩
  | streamConfig =>
    exact ⟨streamFields, by rw [streamConfig_eq], denoted_streamFields, by decide⟩
  | @setter c hc =>
    refine ⟨c.fields, rfl, Command.denoted hc, ?_⟩
    cases c <;> dsimp only [Command.fields, List.map] <;> decide

/-! ## The loop -/

theorem Android.FollowsJson.command {android : Android} (h : android.FollowsJson)
    {type token payload : Text} (htype : type ∈ commandTypes) (hne : token ≠ [])
    (htoken : ∀ c ∈ token, 32 ≤ c.toNat) (hpayload : Payload payload) :
    ∃ field, android.parseJson (buildControlMessage (escape token) type payload) = some field ∧
      field "type".toList = type ∧ field "auth_token".toList = token := by
  have hword : IsWord type := by
    revert type
    simp only [commandTypes, List.forall_mem_cons]
    decide
  have hempty : (escape token).isEmpty = false := by
    obtain ⟨c, rest, rfl⟩ := List.exists_cons_of_ne_nil hne
    rw [escape_cons]
    split_ifs <;> rfl
  obtain ⟨fields, heq, ⟨members, hmembers, hnames⟩, hnodup⟩ :=
    hpayload.exists_fields (escape token) type
  rw [← hnames] at hnodup
  rw [heq, buildControlMessage_objectText, hempty, if_neg Bool.false_ne_true,
    List.singleton_append]
  have hfirst : MemberDenotes InRange ("type".toList, .string type)
      ("type".toList, .scalar (.string type)) := .of_value hword.simple.denotes (by decide)
  have hsecond : MemberDenotes InRange ("auth_token".toList, .string (escape token))
      ("auth_token".toList, .scalar (.string token)) :=
    .of_value (denotes_string htoken) (by decide)
  obtain ⟨field, hfield, hstrings⟩ := h.parses (.cons hfirst (.cons hsecond hmembers)) hnodup
  exact ⟨field, hfield, hstrings _ _ List.mem_cons_self,
    hstrings _ _ (List.mem_cons_of_mem _ List.mem_cons_self)⟩

/-- Whatever the token of the phone, the commands of the desktop that got it carry it. -/
theorem isTokenValid_of_pairingOk {env : Platform} {android : Android} (h : android.FollowsJson)
    (tokenBytes : FixedBytes 32) {p : PairingManager}
    (hp : p.authToken = some (Base64.encode tokenBytes.toList)) (s : ServiceManager)
    (myKeys : KeyPair) {type payload : Text} (htype : type ∈ commandTypes)
    (hpayload : Payload payload) :
    let token := (s.onTcpControlMessage env (Phone.pairingOk p.authToken) myKeys).1.token
    ∃ field, android.parseJson (buildControlMessage token type payload) = some field ∧
      field "type".toList = type ∧ p.isTokenValid (field "auth_token".toList) = true := by
  intro token
  have htoken : token = escape (Base64.encode tokenBytes.toList) := by
    simp only [token, hp, ServiceManager.onTcpControlMessage_ok]
  have hne : Base64.encode tokenBytes.toList ≠ [] := by
    intro hnil
    have hlength := length_encode_key tokenBytes
    rw [hnil] at hlength
    cases hlength
  have hprintable : ∀ c ∈ Base64.encode tokenBytes.toList, 32 ≤ c.toNat :=
    Base64.forall_mem_encode (by decide) (by decide)
  obtain ⟨field, hfield, htypeof, hauth⟩ := h.command htype hne hprintable hpayload
  refine ⟨field, htoken ▸ hfield, htypeof, ?_⟩
  rw [hauth, PairingManager.isTokenValid, hp, Option.any_some, decide_eq_true_eq]

theorem FiniteFloat.zero_lt : (0 : ℚ≥0) < 2 ^ 128 := by simp

def FiniteFloat.negativeZero : FiniteFloat := ⟨true, 0, zero_lt⟩

/-- Nearly all characters of this token are slashes. -/
theorem isTokenValid_of_slashes :
    let tokenBytes : FixedBytes 32 := .replicate 32 255
    let p : PairingManager := { authToken := some (Base64.encode tokenBytes.toList) }
    let c := Command.setFocus false FiniteFloat.negativeZero.floatText
    let token := (ServiceManager.onTcpControlMessage .standard {} (Phone.pairingOk p.authToken)
      (.sample 5)).1.token
    ∃ field, Android.json.parseJson (buildControlMessage token c.type (objectText c.fields)) =
      some field ∧ field "type".toList = c.type ∧
      p.isTokenValid (field "auth_token".toList) = true := by
  intro tokenBytes p c
  have hfinite : c.Finite := ⟨.negativeZero, rfl⟩
  exact isTokenValid_of_pairingOk Android.json_followsJson tokenBytes rfl {} (.sample 5)
    (by decide) (.setter hfinite)

end VeyraCam
