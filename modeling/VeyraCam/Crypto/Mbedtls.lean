import VeyraCam.Protocol.Bytes

/-! # The mbedTLS interface

The cryptographic primitives the code calls, as a parameter of the model. Only
what mbedTLS documents of them is ever assumed, and always by name.
-/

namespace VeyraCam

inductive ChachapolyMode where
  | encrypt
  | decrypt
  deriving DecidableEq, Repr

/-- The mbedTLS calls of the source; `none` is a non-zero return code. -/
structure Mbedtls where
  /-- Reading the peer's point, `mbedtls_ecdh_compute_shared` on Curve25519 and
  writing the secret. -/
  x25519 : (privateKey peerPublicKey : FixedBytes 32) → Option (FixedBytes 32)
  hkdfExtract : (salt inputKey : Bytes) → Option (FixedBytes 32)
  hkdfExpand : (prk : FixedBytes 32) → (info : Bytes) → (n : ℕ) → Option (FixedBytes n)
  /-- One `setkey`, `starts`, `update_aad`, `update`, `finish` sequence: the output and the tag. -/
  chachapoly : ChachapolyMode → (key : FixedBytes 32) → (nonce : FixedBytes 12) →
    (aad input : Bytes) → Option (Bytes × FixedBytes 16)
  chachapoly_length : ∀ {mode key nonce aad input output tag},
    chachapoly mode key nonce aad input = some (output, tag) → output.length = input.length
  base64Encode : Bytes → Option Text
  base64Decode : Text → Option Bytes

namespace Mbedtls

variable (lib : Mbedtls)

/-- Decryption under the same key, nonce and additional data undoes encryption
and computes the same tag. -/
def DecryptInvertsEncrypt : Prop :=
  ∀ key nonce aad plaintext ciphertext tag,
    lib.chachapoly .encrypt key nonce aad plaintext = some (ciphertext, tag) →
    lib.chachapoly .decrypt key nonce aad ciphertext = some (plaintext, tag)

def EncryptSucceeds : Prop :=
  ∀ key nonce aad plaintext, (lib.chachapoly .encrypt key nonce aad plaintext).isSome

def checksum (bs : Bytes) : UInt8 := bs.foldl (· + ·) 0

/-- A stand-in for the library, to evaluate the model on: the cipher adds the
first byte of the key to each byte, and the tag is a checksum of all inputs. -/
def sample : Mbedtls where
  x25519 privateKey peerPublicKey :=
    some (privateKey.map₂ (· * ·) peerPublicKey)
  hkdfExtract salt inputKey := some (.replicate 32 (checksum (salt ++ inputKey)))
  hkdfExpand prk info n := some (.replicate n (checksum (prk.toList ++ info)))
  chachapoly mode key nonce aad input :=
    let pad := match mode with
      | .encrypt => key.head
      | .decrypt => -key.head
    let output := input.map (· + pad)
    let ciphertext := match mode with
      | .encrypt => output
      | .decrypt => input
    some (output, .replicate 16 (checksum (key.toList ++ nonce.toList ++ aad ++ ciphertext)))
  chachapoly_length h := by
    obtain ⟨rfl, -⟩ := Prod.mk.inj (Option.some.inj h)
    exact List.length_map _
  base64Encode bs := some (bs.map fun b => Char.ofNat b.toNat)
  base64Decode t := some (t.map fun c => UInt8.ofNat c.toNat)

theorem sample_decryptInvertsEncrypt : sample.DecryptInvertsEncrypt := by
  intro key nonce aad plaintext ciphertext tag h
  obtain ⟨rfl, rfl⟩ := Prod.mk.inj (Option.some.inj h)
  have hpad : ∀ b : UInt8, b + key.head + -key.head = b := fun b => by
    rw [UInt8.add_assoc, UInt8.add_right_neg, UInt8.add_zero]
  simp only [sample, List.map_map, Function.comp_def, hpad, List.map_id_fun', id_eq]

theorem sample_encryptSucceeds : sample.EncryptSucceeds := fun _ _ _ _ => rfl

end Mbedtls

end VeyraCam
