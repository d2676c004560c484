import VeyraCam.Desktop.ServiceManager
import VeyraCam.Phone.UdpTransport

/-! # The challenge

The phone's JSON library escapes a slash, and the desktop's extractor takes the
text of a value as it stands. A public key arrives when its Base64 text has no
slash in it, and otherwise the desktop hands a backslash to the decoder.
-/

namespace VeyraCam

namespace Mbedtls

/-- The Base64 functions write the standard encoding, read it back and take no backslash. -/
structure Base64Standard (lib : Mbedtls) : Prop where
  encode : ∀ bs, lib.base64Encode bs = some (Base64.encode bs)
  decode : ∀ bs, lib.base64Decode (Base64.encode bs) = some bs
  rejects : ∀ text, backslash ∈ text → lib.base64Decode text = none

/-- The stand-in library with standard Base64, to evaluate the model on. -/
def standard : Mbedtls :=
  { sample with
    base64Encode := fun bs => some (Base64.encode bs)
    base64Decode := Base64.decode }

theorem standard_base64Standard : standard.Base64Standard where
  encode _ := rfl
  decode := Base64.decode_encode
  rejects text h := by
    rw [Option.eq_none_iff_forall_ne_some]
    intro bs hbs
    rcases Base64.isSome_value?_of_decode hbs h with hb | hb <;> exact absurd hb (by decide)

variable {lib : Mbedtls}

theorem Base64Standard.base64Encode (h : lib.Base64Standard) (bs : Bytes) :
    SessionCrypto.base64Encode lib bs = Base64.encode bs := by
  unfold SessionCrypto.base64Encode
  split_ifs with hbs
  · rw [List.isEmpty_iff.mp hbs]
    rfl
  · rw [h.encode]
    rfl

theorem Base64Standard.base64Decode (h : lib.Base64Standard) (bs : Bytes) :
    SessionCrypto.base64Decode lib (Base64.encode bs) = bs := by
  unfold SessionCrypto.base64Decode
  split_ifs with hbs
  · exact (Base64.encode_eq_nil_iff.mp (List.isEmpty_iff.mp hbs)).symm
  · rw [h.decode]
    rfl

theorem Base64Standard.base64Decode_of_mem (h : lib.Base64Standard) {text : Text}
    (ht : backslash ∈ text) : SessionCrypto.base64Decode lib text = [] := by
  unfold SessionCrypto.base64Decode
  split_ifs
  · rfl
  · rw [h.rejects text ht]
    rfl

end Mbedtls

theorem quote_notMem_encode (bs : Bytes) : quote ∉ Base64.encode bs := by
  have hne : ∀ c ∈ Base64.encode bs, c ≠ quote :=
    Base64.forall_mem_encode (by decide) (by decide)
  exact fun h => hne quote h rfl

theorem escape_encode {bs : Bytes} (h : '/' ∉ Base64.encode bs) :
    escape (Base64.encode bs) = Base64.encode bs := by
  apply escape_of_none
  intro c hc
  rcases Base64.mem_encode hc with rfl | ⟨n, hn, rfl⟩
  · decide
  · have hslash : Base64.digit n ≠ '/' := fun he => h (he ▸ hc)
    clear h hc
    revert n
    decide

theorem quote_notMem_escape {s : Text} (h : quote ∉ s) : quote ∉ escape s := by
  intro hq
  rcases mem_escape hq with hq | hq
  · exact absurd hq (by decide)
  · exact h hq

namespace Phone

/-- The escaped text of 32 bytes is longer than any name in the messages. -/
theorem length_escape_encode (bs : FixedBytes 32) :
    44 ≤ (escape (Base64.encode bs.toList)).length := by
  have h := length_le_length_escape (Base64.encode bs.toList)
  rwa [Base64.length_encode, bs.toList_length] at h

theorem escape_encode_notMem (bs : FixedBytes 32) {names : List Text}
    (h : ∀ name ∈ names, name.length < 44) : escape (Base64.encode bs.toList) ∉ names :=
  fun hmem => absurd (length_escape_encode bs) (not_le.mpr (h _ hmem))

theorem pairingChallenge_eq (serverPubKey : Text) (sessionId : UInt32) :
    pairingChallenge serverPubKey sessionId =
      objectText [("type".toList, .string "pairing_challenge".toList),
        ("server_pubkey".toList, .string (escape serverPubKey)),
        ("session_id".toList, .number sessionId.toInt32.toInt)] := rfl

theorem readable_pairingChallenge (key : FixedBytes 32) (sessionId : UInt32) :
    Readable [("type".toList, .string "pairing_challenge".toList),
      ("server_pubkey".toList, .string (escape (Base64.encode key.toList))),
      ("session_id".toList, .number sessionId.toInt32.toInt)] := by
  apply readable_of_names ["type".toList, "server_pubkey".toList, "session_id".toList] rfl
    (by decide) (by decide)
  simp only [List.forall_mem_cons]
  exact ⟨by decide, ⟨quote_notMem_escape (quote_notMem_encode _),
    escape_encode_notMem key (by decide)⟩, quote_notMem_number _, List.forall_mem_nil _⟩

theorem extractJsonString_pairingChallenge (key : FixedBytes 32) (sessionId : UInt32) :
    extractJsonString (pairingChallenge (Base64.encode key.toList) sessionId)
      "server_pubkey".toList = escape (Base64.encode key.toList) := by
  rw [pairingChallenge_eq]
  exact (readable_pairingChallenge key sessionId).extractJsonString (by simp)

theorem extractJsonString_type (serverPubKey : Text) (sessionId : UInt32) :
    extractJsonString (pairingChallenge serverPubKey sessionId) "type".toList =
      "pairing_challenge".toList := by
  rw [pairingChallenge_eq]
  exact extractJsonString_first (by decide) (by decide) _

end Phone

/-- The desktop reads the key of the challenge and never answers that it is invalid. -/
def KeySurvives (phone : Android) (env : Platform) (key : FixedBytes 32) (sessionId : UInt32) :
    Prop :=
  let challenge :=
    Phone.pairingChallenge (SessionCrypto.base64Encode phone.lib key.toList) sessionId
  SessionCrypto.base64Decode env.lib (extractJsonString challenge "server_pubkey".toList) =
      key.toList ∧
    ∀ (s : ServiceManager) (myKeys : KeyPair),
      .status "pairing_error:invalid_pubkey".toList ∉ (s.onTcpControlMessage env challenge myKeys).2

theorem ServiceManager.ne_invalid_of_length {env : Platform} {serverPubKey : Text}
    (h : (SessionCrypto.base64Decode env.lib serverPubKey).length = publicKeySize)
    (s : ServiceManager) (sessionId : UInt32) (myKeys : KeyPair) :
    .status "pairing_error:invalid_pubkey".toList ∉
      (s.handlePairingChallenge env serverPubKey sessionId myKeys).2 := by
  have hempty : serverPubKey.isEmpty = false := by
    by_contra hempty
    rw [SessionCrypto.base64Decode, if_pos (by simpa using hempty)] at h
    cases h
  unfold handlePairingChallenge
  rw [hempty]
  dsimp only
  rw [dif_pos h]
  unfold report
  split_ifs <;> simp

theorem keySurvives_iff {phone : Android} {env : Platform} (hphone : phone.lib.Base64Standard)
    (hdesktop : env.lib.Base64Standard) (key : FixedBytes 32) (sessionId : UInt32) :
    KeySurvives phone env key sessionId ↔ '/' ∉ Base64.encode key.toList := by
  unfold KeySurvives
  dsimp only
  rw [hphone.base64Encode, Phone.extractJsonString_pairingChallenge]
  constructor
  · rintro ⟨hkey, -⟩ hslash
    rw [hdesktop.base64Decode_of_mem (backslash_mem_escape hslash (by decide))] at hkey
    have hlength := congrArg List.length hkey
    rw [key.toList_length] at hlength
    cases hlength
  · intro hslash
    rw [escape_encode hslash, hdesktop.base64Decode]
    refine ⟨rfl, fun s myKeys => ?_⟩
    unfold ServiceManager.onTcpControlMessage
    dsimp only
    rw [Phone.extractJsonString_type, if_pos rfl, Phone.extractJsonString_pairingChallenge,
      escape_encode hslash]
    apply ServiceManager.ne_invalid_of_length
    rw [hdesktop.base64Decode, key.toList_length]
    rfl

def Android.standard : Android := { Android.sample with lib := .standard }

def Platform.standard : Platform := { Platform.sample with lib := .standard }

theorem keySurvives_iff_standard :
    KeySurvives .standard .standard (.replicate 32 1) 7 ↔
      '/' ∉ Base64.encode (List.Vector.replicate 32 1).toList :=
  keySurvives_iff Mbedtls.standard_base64Standard Mbedtls.standard_base64Standard _ _

set_option maxRecDepth 100000 in
/-- A key that begins with the byte 255 does not arrive. -/
theorem not_keySurvives :
    ¬ KeySurvives .standard .standard (255 ::ᵥ .replicate 31 0) 7 := by
  rintro ⟨h, -⟩
  revert h
  decide

end VeyraCam
