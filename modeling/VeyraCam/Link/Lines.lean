import VeyraCam.Link.ControlLink
import VeyraCam.Link.JsonObject

/-! # The lines of a control link

The lines that either side writes, as objects, and what the other side reads in
them.
-/

namespace VeyraCam

variable {env : Platform} {android : Android}

theorem IsLiteral.quote_notMem {text : Text} (h : IsLiteral text) : quote ∉ text := fun hq =>
  absurd (h.2 quote hq) (by decide)

/-- A message is an object: the members of the payload come after the type and the token. -/
theorem buildControlMessage_objectText (token type : Text) (fields : List (Text × JsonValue)) :
    buildControlMessage token type (objectText fields) =
      objectText (("type".toList, .string type) ::
        ((if token.isEmpty then [] else [("auth_token".toList, .string token)]) ++ fields)) := by
  have hhead : (objectText fields).head? = some (.ofNat 123) := rfl
  have htail : (objectText fields).tail = membersText fields ++ [.ofNat 125] := rfl
  have hlast : (membersText fields ++ [Char.ofNat 125]).getLast? = some (.ofNat 125) := by simp
  have hdrop : (membersText fields ++ [Char.ofNat 125]).dropLast = membersText fields := by simp
  have hempty : (membersText fields).isEmpty = fields.isEmpty := by
    match fields with
    | [] => rfl
    | [_] => rfl
    | _ :: _ :: _ => rfl
  unfold buildControlMessage
  dsimp only
  rw [if_pos hhead, htail, if_pos hlast, hdrop, hempty]
  cases htoken : token.isEmpty <;> cases fields <;>
    simp [objectText, membersText, JsonValue.text, jsonField, quote]

theorem buildControlMessage_nil (token type : Text) :
    buildControlMessage token type [] = buildControlMessage token type (objectText []) := rfl

namespace Command

theorem message_nil (c : Command) :
    c.message [] = objectText (("type".toList, .string c.type) :: c.fields) := by
  unfold message
  cases hf : c.fields with
  | nil => exact (buildControlMessage_nil [] c.type).trans (buildControlMessage_objectText ..)
  | cons f fields => exact buildControlMessage_objectText [] c.type (f :: fields)

theorem isLiteral_number (n : ℤ) : IsLiteral (toString n).toList :=
  isLiteral_of_spells (JsonText.spells_toString n)

theorem exists_isLiteral (c : Command) : ∀ f ∈ c.fields, ∃ text, f.2 = .raw text ∧
    IsLiteral text := by
  have hbool (b : Bool) : IsLiteral (if b then "true" else "false").toList := by
    cases b <;> decide
  cases c with
  | setZoom zoom => simpa [fields] using zoom.property
  | setExposure exposure => simpa [fields, JsonValue.number] using isLiteral_number exposure
  | setFocus autoFocus distance =>
    simpa [fields, bool] using ⟨hbool autoFocus, distance.property⟩
  | setTorch enabled => simpa [fields, bool] using hbool enabled
  | switchCamera front => simpa [fields, bool] using hbool front
  | requestIdr => simp [fields]

theorem readable (c : Command) : Readable (("type".toList, .string c.type) :: c.fields) := by
  have htype : IsWord "type".toList := by decide
  constructor
  · cases c <;> dsimp only [fields, List.map] <;> decide
  · have hwords : ∀ n ∈ c.fields.map Prod.fst, IsWord n := by
      cases c <;> dsimp only [fields, List.map] <;> decide
    exact List.forall_mem_cons.mpr ⟨htype, fun f hf => hwords f.1 (List.mem_map_of_mem hf)⟩
  · have hplain : (JsonValue.string c.type).Plain ("type".toList :: c.fields.map Prod.fst) := by
      cases c <;> dsimp only [fields, type, List.map] <;> decide
    refine List.forall_mem_cons.mpr ⟨hplain, fun f hf => ?_⟩
    obtain ⟨text, htext, hliteral⟩ := c.exists_isLiteral f hf
    rw [htext]
    exact hliteral.quote_notMem

theorem simple (c : Command) :
    ∀ f ∈ ("type".toList, .string c.type) :: c.fields, JsonValue.Simple f.2 := by
  have htype : (JsonValue.string c.type).Simple := by
    cases c <;> dsimp only [type] <;> decide
  refine List.forall_mem_cons.mpr ⟨htype, fun f hf => ?_⟩
  obtain ⟨text, htext, hliteral⟩ := c.exists_isLiteral f hf
  rw [htext]
  exact hliteral

theorem type_ne (c : Command) : c.type ≠ "pairing_response".toList := by
  cases c <;> dsimp only [type] <;> decide

end Command

/-- The phone does not take the line for a `pairing_response`. -/
def Harmless (android : Android) (line : Text) : Prop :=
  ∀ field, android.parseJson line = some field → field "type".toList ≠ "pairing_response".toList

theorem Android.ReadsJson.harmless (h : android.ReadsJson) (c : Command) :
    Harmless android (c.message []) := by
  rw [c.message_nil]
  intro field hfield
  rw [h.words _ c.readable c.simple field hfield "type".toList c.type List.mem_cons_self]
  exact c.type_ne

theorem simple_encode (bs : Bytes) : (JsonValue.string (Base64.encode bs)).Simple :=
  Base64.forall_mem_encode (by decide) (by decide)

theorem simple_generatePin (digits : List.Vector (Fin 10) PairingManager.pinLength) :
    (JsonValue.string (PairingManager.generatePin digits)).Simple :=
  PairingManager.forall_mem_generatePin (by decide) digits

theorem length_encode_key (bs : FixedBytes 32) : (Base64.encode bs.toList).length = 44 := by
  rw [Base64.length_encode, bs.toList_length]

theorem Android.FollowsJson.response (h : android.FollowsJson) (hb : env.lib.Base64Standard)
    {s : ServiceManager} {typed : List.Vector (Fin 10) PairingManager.pinLength}
    (hpin : s.pin = PairingManager.generatePin typed) (myKeys : KeyPair) :
    ∃ field, android.parseJson (s.pairingResponse env myKeys) = some field ∧
      field "type".toList = "pairing_response".toList ∧ field "pin".toList = s.pin ∧
      field "client_pubkey".toList = Base64.encode myKeys.publicKey.toList := by
  have heq : s.pairingResponse env myKeys =
      objectText [("type".toList, .string "pairing_response".toList),
        ("pin".toList, .string s.pin),
        ("client_pubkey".toList, .string (Base64.encode myKeys.publicKey.toList))] := by
    simp [ServiceManager.pairingResponse, hb.base64Encode, objectText, membersText,
      JsonValue.text, jsonField, quote]
  have hmember {k v : Text} (hv : (JsonValue.string v).Simple) (hk : IsWord k) :
      MemberDenotes InRange (k, .string v) (k, .scalar (.string v)) := .of_value hv.denotes hk
  have htype : (JsonValue.string "pairing_response".toList).Simple := by decide
  have hmembers := List.Forall₂.cons (hmember htype (k := "type".toList) (by decide))
    (.cons (hmember (hpin ▸ simple_generatePin typed) (k := "pin".toList) (by decide))
      (.cons (hmember (simple_encode myKeys.publicKey.toList) (k := "client_pubkey".toList)
        (by decide)) .nil))
  have hnodup : ["type".toList, "pin".toList, "client_pubkey".toList].Nodup := by decide
  obtain ⟨field, hfield, hstrings⟩ := h.parses hmembers hnodup
  rw [← heq] at hfield
  exact ⟨field, hfield, hstrings _ _ (by simp), hstrings _ _ (by simp), hstrings _ _ (by simp)⟩

/-- The desktop reads the token as it is escaped. -/
theorem extractJsonString_pairingOk (tokenBytes : FixedBytes 32) :
    extractJsonString (Phone.pairingOk (some (Base64.encode tokenBytes.toList))) "token".toList =
      escape (Base64.encode tokenBytes.toList) := by
  have hreadable : Readable [("type".toList, .string "pairing_ok".toList),
      ("token".toList, .string (escape (Base64.encode tokenBytes.toList)))] := by
    apply readable_of_names ["type".toList, "token".toList] rfl (by decide) (by decide)
    simp only [List.forall_mem_cons]
    exact ⟨by decide, ⟨quote_notMem_escape (quote_notMem_encode _),
      Phone.escape_encode_notMem tokenBytes (by decide)⟩, List.forall_mem_nil _⟩
  exact hreadable.extractJsonString (by simp)

/-- The type of any message of the phone is its first member. -/
theorem extractJsonString_type {type : Text} (h : type.any isEscaped = false)
    (fields : List (Text × JsonValue)) :
    extractJsonString (jsonToString (("type".toList, .string type) :: fields)) "type".toList =
      type := by
  have hnone (c : Char) (hc : c ∈ type) : isEscaped c = false :=
    Bool.eq_false_of_not_eq_true (List.any_eq_false.mp h c hc)
  have hescape : escape type = type := escape_of_none hnone
  have hq : quote ∉ type := fun hq => absurd (hnone quote hq) (by decide)
  have heq : jsonToString (("type".toList, .string type) :: fields) =
      objectText (("type".toList, .string type) ::
        fields.map fun f => (escape f.1, f.2.escaped)) := by
    have hname : escape "type".toList = "type".toList := by decide
    simp only [jsonToString, List.map_cons, JsonValue.escaped, hescape, hname]
  rw [heq]
  exact extractJsonString_first (by decide) hq _

end VeyraCam
