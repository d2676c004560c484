import VeyraCam.Crypto.SessionCrypto

/-! # The key exchange

The two sides of a pairing derive their keys from the same secret but from
opposite points of view: each has its own public key and the peer's, puts the
lesser first, and copies the four outputs according to its role. The sessions
they end with mirror each other.
-/

namespace VeyraCam

namespace Mbedtls

/-- HKDF does not fail for the lengths of a key and of a nonce salt. -/
structure HkdfSucceeds (lib : Mbedtls) : Prop where
  extract : ∀ salt inputKey, (lib.hkdfExtract salt inputKey).isSome
  expand_key : ∀ prk info, (lib.hkdfExpand prk info 32).isSome
  expand_salt : ∀ prk info, (lib.hkdfExpand prk info 8).isSome

/-- Each side's private key and the other's public key lead to the same shared secret. -/
def Agree (lib : Mbedtls) (a b : KeyPair) : Prop :=
  lib.x25519 a.privateKey b.publicKey = lib.x25519 b.privateKey a.publicKey

theorem sample_hkdfSucceeds : sample.HkdfSucceeds :=
  ⟨fun _ _ => rfl, fun _ _ => rfl, fun _ _ => rfl⟩

end Mbedtls

/-- Two key pairs that agree under the stand-in library, to evaluate the model on. -/
def KeyPair.sample (n : UInt8) : KeyPair := ⟨.replicate 32 n, .replicate 32 n⟩

namespace SessionCrypto

variable {lib : Mbedtls} {server client : KeyPair}

theorem ordered_comm (a b : FixedBytes 32) :
    (if a.toList ≤ b.toList then a else b) = (if b.toList ≤ a.toList then b else a) ∧
      (if a.toList ≤ b.toList then b else a) = (if b.toList ≤ a.toList then a else b) := by
  rcases List.le_total a.toList b.toList with hab | hba
  · by_cases hba : b.toList ≤ a.toList
    · obtain rfl := List.Vector.toList_injective (List.le_antisymm hab hba)
      exact ⟨rfl, rfl⟩
    · simp [hab, hba]
  · by_cases hab : a.toList ≤ b.toList
    · obtain rfl := List.Vector.toList_injective (List.le_antisymm hab hba)
      exact ⟨rfl, rfl⟩
    · simp [hab, hba]

/-- The client's session is the mirror of the server's, also in that they fail together. -/
theorem deriveKeys_client (h : lib.Agree server client) :
    deriveKeys lib false server.publicKey client.publicKey client.privateKey =
      (deriveKeys lib true client.publicKey server.publicKey server.privateKey).map mirror := by
  obtain ⟨hlo, hhi⟩ := ordered_comm server.publicKey client.publicKey
  have hz : lib.x25519 server.privateKey client.publicKey =
      lib.x25519 client.privateKey server.publicKey := h
  simp only [deriveKeys, hz, decide_eq_true_eq, hlo, hhi, Option.bind_eq_bind,
    Option.map_bind, Function.comp_def]
  rfl

theorem mirrors_of_deriveSessionKeys (h : lib.Agree server client) {s c : SessionCrypto}
    (hs : deriveSessionKeys lib true client.publicKey server.publicKey server.privateKey =
      (true, s))
    (hc : deriveSessionKeys lib false server.publicKey client.publicKey client.privateKey =
      (true, c)) : c = s.mirror ∧ s.hasKeys = true := by
  refine ⟨?_, hasKeys_of_deriveSessionKeys hs⟩
  unfold deriveSessionKeys at hs hc
  rw [deriveKeys_client h] at hc
  cases hd : deriveKeys lib true client.publicKey server.publicKey server.privateKey with
  | none => rw [hd] at hs; cases hs
  | some s' =>
    rw [hd] at hs hc
    obtain rfl := (Prod.mk.inj hs).2
    exact (Prod.mk.inj hc).2.symm

theorem deriveSessionKeys_succeeds (hkdf : lib.HkdfSucceeds) (serverRole : Bool)
    (pub : FixedBytes 32) {peer priv z : FixedBytes 32} (hz : lib.x25519 priv peer = some z) :
    ∃ c, deriveSessionKeys lib serverRole peer pub priv = (true, c) := by
  obtain ⟨prk, hprk⟩ := Option.isSome_iff_exists.mp (hkdf.extract hkdfSalt z.toList)
  have hkey (info : Bytes) : ∃ out, lib.hkdfExpand prk info 32 = some out :=
    Option.isSome_iff_exists.mp (hkdf.expand_key prk info)
  have hsalt (info : Bytes) : ∃ out, lib.hkdfExpand prk info 8 = some out :=
    Option.isSome_iff_exists.mp (hkdf.expand_salt prk info)
  suffices hd : ∃ c, deriveKeys lib serverRole peer pub priv = some c by
    obtain ⟨c, hd⟩ := hd
    exact ⟨c, deriveSessionKeys_of_some hd⟩
  simp only [deriveKeys, Option.bind_eq_bind, hz, hprk, Option.bind_some]
  choose key hkey using hkey
  choose salt hsalt using hsalt
  simp only [hkey, hsalt, Option.bind_some]
  exact ⟨_, rfl⟩

theorem Mirrors.round_trip {tx rx : SessionCrypto} (h : Mirrors tx rx)
    (hinverts : lib.DecryptInvertsEncrypt) (hsucceeds : lib.EncryptSucceeds) (plaintext : Bytes)
    (sequence : UInt32) (aad : Bytes) :
    ∃ sealed, tx.encrypt lib (.data plaintext) sequence aad = some sealed ∧
      sealed.length = plaintext.length + tagSize ∧
      rx.decrypt lib sealed sequence aad = some plaintext := by
  obtain ⟨sealed, hs⟩ := Option.isSome_iff_exists.mp
    (encrypt_isSome hsucceeds h.tx_keyed plaintext sequence aad)
  exact ⟨sealed, hs, length_encrypt hs, h.decrypt_encrypt hinverts hs⟩

/-- Server and client derive mirrored keys from one shared secret, and each opens what the
other seals. -/
theorem mirrored_sessions (hkdf : lib.HkdfSucceeds) (hinverts : lib.DecryptInvertsEncrypt)
    (hsucceeds : lib.EncryptSucceeds) {z : FixedBytes 32}
    (hserver : lib.x25519 server.privateKey client.publicKey = some z)
    (hclient : lib.x25519 client.privateKey server.publicKey = some z) :
    ∃ s c, deriveSessionKeys lib true client.publicKey server.publicKey server.privateKey =
        (true, s) ∧
      deriveSessionKeys lib false server.publicKey client.publicKey client.privateKey = (true, c) ∧
      s.txKey = c.rxKey ∧ s.txSalt = c.rxSalt ∧ c.txKey = s.rxKey ∧ c.txSalt = s.rxSalt ∧
      ∀ plaintext sequence aad,
        (∃ sealed, s.encrypt lib (.data plaintext) sequence aad = some sealed ∧
          sealed.length = plaintext.length + tagSize ∧
          c.decrypt lib sealed sequence aad = some plaintext) ∧
        (∃ sealed, c.encrypt lib (.data plaintext) sequence aad = some sealed ∧
          sealed.length = plaintext.length + tagSize ∧
          s.decrypt lib sealed sequence aad = some plaintext) := by
  have hagree : lib.Agree server client := hserver.trans hclient.symm
  obtain ⟨s, hs⟩ := deriveSessionKeys_succeeds hkdf true server.publicKey hserver
  obtain ⟨c, hc⟩ := deriveSessionKeys_succeeds hkdf false client.publicKey hclient
  obtain ⟨rfl, hk⟩ := mirrors_of_deriveSessionKeys hagree hs hc
  refine ⟨s, s.mirror, hs, hc, rfl, rfl, rfl, rfl, fun plaintext sequence aad => ⟨?_, ?_⟩⟩
  · have h : Mirrors s s.mirror := mirrors_mirror (c := s.mirror) hk
    exact h.round_trip hinverts hsucceeds plaintext sequence aad
  · exact (mirrors_mirror hk).round_trip hinverts hsucceeds plaintext sequence aad

theorem mirrored_sessions_sample :
    ∃ s c, deriveSessionKeys .sample true (KeyPair.sample 5).publicKey (KeyPair.sample 3).publicKey
        (KeyPair.sample 3).privateKey = (true, s) ∧
      deriveSessionKeys .sample false (KeyPair.sample 3).publicKey (KeyPair.sample 5).publicKey
        (KeyPair.sample 5).privateKey = (true, c) ∧ c.decrypt .sample
          ((s.encrypt .sample (.data [1, 2]) 9 [4]).getD []) 9 [4] = some [1, 2] := by
  have hserver : Mbedtls.sample.x25519 (KeyPair.sample 3).privateKey (KeyPair.sample 5).publicKey =
      some (.replicate 32 15) := by rfl
  have hclient : Mbedtls.sample.x25519 (KeyPair.sample 5).privateKey (KeyPair.sample 3).publicKey =
      some (.replicate 32 15) := by rfl
  obtain ⟨s, c, hs, hc, -, -, -, -, h⟩ := mirrored_sessions Mbedtls.sample_hkdfSucceeds
    Mbedtls.sample_decryptInvertsEncrypt Mbedtls.sample_encryptSucceeds hserver hclient
  obtain ⟨sealed, he, -, hd⟩ := (h [1, 2] 9 [4]).1
  exact ⟨s, c, hs, hc, by rw [he]; exact hd⟩

end SessionCrypto

end VeyraCam
