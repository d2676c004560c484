import VeyraCam.Crypto.Mbedtls

/-! # Session keys and authenticated encryption

`SessionCrypto` holds the keys and nonce salts of both directions. A nonce is
the salt of the direction followed by the packet sequence, so under one salt
distinct sequences give distinct nonces.
-/

namespace VeyraCam

def tagSize : ℕ := 16

def publicKeySize : ℕ := 32

structure KeyPair where
  publicKey : FixedBytes 32
  privateKey : FixedBytes 32
  deriving DecidableEq

structure SessionCrypto where
  rxKey : FixedBytes 32 := .replicate 32 0
  txKey : FixedBytes 32 := .replicate 32 0
  rxSalt : FixedBytes 8 := .replicate 8 0
  txSalt : FixedBytes 8 := .replicate 8 0
  hasKeys : Bool := false
  deriving DecidableEq

namespace SessionCrypto

variable (lib : Mbedtls)

def ascii (s : String) : Bytes := s.toList.map fun c => UInt8.ofNat c.toNat

def hkdfSalt : Bytes := ascii "VeyraV1-session-kx"

/-- The key schedule of `SessionCrypto::DeriveSessionKeys`: the steps up to its first failure. -/
def deriveKeys (serverRole : Bool) (peerPublicKey myPublicKey myPrivateKey : FixedBytes 32) :
    Option SessionCrypto := do
  let shared ← lib.x25519 myPrivateKey peerPublicKey
  let prk ← lib.hkdfExtract hkdfSalt shared.toList
  let ordered : Bool := myPublicKey.toList ≤ peerPublicKey.toList
  let lo := if ordered then myPublicKey else peerPublicKey
  let hi := if ordered then peerPublicKey else myPublicKey
  let buildInfo (label : String) : Bytes := ascii label ++ lo.toList ++ hi.toList
  let kS2C ← lib.hkdfExpand prk (buildInfo "VeyraV1|s2c|") 32
  let kC2S ← lib.hkdfExpand prk (buildInfo "VeyraV1|c2s|") 32
  let nS2C ← lib.hkdfExpand prk (buildInfo "VeyraV1|ns2c|") 8
  let nC2S ← lib.hkdfExpand prk (buildInfo "VeyraV1|nc2s|") 8
  some (if serverRole then
    { txKey := kS2C, rxKey := kC2S, txSalt := nS2C, rxSalt := nC2S, hasKeys := true }
  else
    { rxKey := kS2C, txKey := kC2S, rxSalt := nS2C, txSalt := nC2S, hasKeys := true })

/-- `SessionCrypto::DeriveSessionKeys`, with the state it leaves behind: it begins
and, on any failure, ends with `Reset`. -/
def deriveSessionKeys (serverRole : Bool) (peerPublicKey myPublicKey myPrivateKey : FixedBytes 32) :
    Bool × SessionCrypto :=
  match deriveKeys lib serverRole peerPublicKey myPublicKey myPrivateKey with
  | some crypto => (true, crypto)
  | none => (false, {})

def sequenceBytes (sequence : UInt32) : FixedBytes 4 :=
  ⟨[(sequence >>> 24 &&& 0xFF).toUInt8, (sequence >>> 16 &&& 0xFF).toUInt8,
    (sequence >>> 8 &&& 0xFF).toUInt8, (sequence &&& 0xFF).toUInt8], rfl⟩

/-- `SessionCrypto::BuildNonce`: the salt of the direction, then the sequence. -/
def buildNonce (c : SessionCrypto) (sequence : UInt32) (tx : Bool) : FixedBytes 12 :=
  (if tx then c.txSalt else c.rxSalt) ++ sequenceBytes sequence

/-- The nonce `SessionCrypto::Encrypt` builds, when it gets past its argument checks. -/
def encryptNonce (c : SessionCrypto) (plaintext : Buffer) (sequence : UInt32) :
    Option (FixedBytes 12) :=
  if !c.hasKeys || (plaintext.isNull && 0 < plaintext.size) then none
  else some (c.buildNonce sequence true)

/-- `SessionCrypto::Encrypt`: the ciphertext followed by the tag. -/
def encrypt (c : SessionCrypto) (plaintext : Buffer) (sequence : UInt32) (aad : Bytes) :
    Option Bytes :=
  match c.encryptNonce plaintext sequence with
  | none => none
  | some nonce =>
    (lib.chachapoly .encrypt c.txKey nonce aad plaintext.bytes).map fun (ciphertext, tag) =>
      ciphertext ++ tag.toList

/-- `SessionCrypto::Decrypt`: the plaintext, if the tag verifies. -/
def decrypt (c : SessionCrypto) (ciphertextAndTag : Bytes) (sequence : UInt32) (aad : Bytes) :
    Option Bytes :=
  if !c.hasKeys || ciphertextAndTag.length < tagSize then none
  else
    let cipherLen := ciphertextAndTag.length - tagSize
    match lib.chachapoly .decrypt c.rxKey (c.buildNonce sequence false) aad
        (ciphertextAndTag.take cipherLen) with
    | none => none
    | some (plaintext, computedTag) =>
      if computedTag.toList = ciphertextAndTag.drop cipherLen then some plaintext else none

def base64Encode (data : Bytes) : Text :=
  if data.isEmpty then [] else (lib.base64Encode data).getD []

def base64Decode (b64 : Text) : Bytes :=
  if b64.isEmpty then [] else (lib.base64Decode b64).getD []

variable {lib}

theorem deriveSessionKeys_of_some {serverRole : Bool} {peer pub priv : FixedBytes 32}
    {c : SessionCrypto} (h : deriveKeys lib serverRole peer pub priv = some c) :
    deriveSessionKeys lib serverRole peer pub priv = (true, c) := by
  rw [deriveSessionKeys, h]

theorem deriveSessionKeys_of_none {serverRole : Bool} {peer pub priv : FixedBytes 32}
    (h : deriveKeys lib serverRole peer pub priv = none) :
    deriveSessionKeys lib serverRole peer pub priv = (false, {}) := by
  rw [deriveSessionKeys, h]

theorem hasKeys_of_deriveKeys {serverRole : Bool} {peer pub priv : FixedBytes 32}
    {c : SessionCrypto} (h : deriveKeys lib serverRole peer pub priv = some c) :
    c.hasKeys = true := by
  simp only [deriveKeys, Option.bind_eq_bind, Option.bind_eq_some_iff, Option.some.injEq] at h
  obtain ⟨_, -, _, -, _, -, _, -, _, -, _, -, rfl⟩ := h
  cases serverRole <;> rfl

theorem hasKeys_of_deriveSessionKeys {serverRole : Bool} {peer pub priv : FixedBytes 32}
    {c : SessionCrypto} (h : deriveSessionKeys lib serverRole peer pub priv = (true, c)) :
    c.hasKeys = true := by
  unfold deriveSessionKeys at h
  split at h
  · next c' hd =>
    obtain rfl : c' = c := (Prod.mk.inj h).2
    exact hasKeys_of_deriveKeys hd
  · simp at h

theorem toNat_low_byte (u : UInt32) : (u &&& 0xFF).toUInt8.toNat = u.toNat % 256 := by
  have mask (n : ℕ) : n &&& 255 = n % 256 := Nat.and_two_pow_sub_one_eq_mod n 8
  simp [mask]

theorem sequenceBytes_injective : Function.Injective sequenceBytes := by
  intro s t h
  have hb := congrArg (fun v : FixedBytes 4 => v.toList.map UInt8.toNat) h
  have shift (u k : UInt32) : (u >>> k).toNat = u.toNat / 2 ^ (k.toNat % 32) := by
    rw [UInt32.toNat_shiftRight, Nat.shiftRight_eq_div_pow]
  have h₂₄ : 2 ^ (UInt32.toNat 24 % 32) = 16777216 := rfl
  have h₁₆ : 2 ^ (UInt32.toNat 16 % 32) = 65536 := rfl
  have h₈ : 2 ^ (UInt32.toNat 8 % 32) = 256 := rfl
  simp only [sequenceBytes, List.Vector.toList_mk, List.map_cons, List.map_nil, toNat_low_byte,
    shift, h₂₄, h₁₆, h₈, List.cons.injEq, and_true] at hb
  have hs := s.toNat_lt
  have ht := t.toNat_lt
  apply UInt32.toNat_inj.mp
  omega

theorem buildNonce_injective (c : SessionCrypto) (tx : Bool) :
    Function.Injective (c.buildNonce · tx) := by
  intro s t h
  have hl := congrArg List.Vector.toList h
  simp only [buildNonce, List.Vector.toList_append] at hl
  exact sequenceBytes_injective (List.Vector.toList_injective (List.append_cancel_left hl))

theorem length_bytes_of_encryptNonce {c : SessionCrypto} {plaintext : Buffer} {sequence : UInt32}
    {nonce : FixedBytes 12} (h : c.encryptNonce plaintext sequence = some nonce) :
    plaintext.bytes.length = plaintext.size := by
  cases plaintext with
  | null n =>
    by_cases hn : 0 < n
    · simp [encryptNonce, Buffer.isNull, Buffer.size, hn] at h
    · exact (Nat.eq_zero_of_not_pos hn).symm
  | data bs => rfl

theorem length_encrypt {c : SessionCrypto} {plaintext : Buffer} {sequence : UInt32}
    {aad sealed : Bytes} (h : c.encrypt lib plaintext sequence aad = some sealed) :
    sealed.length = plaintext.size + tagSize := by
  unfold encrypt at h
  split at h
  · cases h
  · rename_i nonce hn
    obtain ⟨⟨ciphertext, tag⟩, he, rfl⟩ := Option.map_eq_some_iff.mp h
    simp [lib.chachapoly_length he, length_bytes_of_encryptNonce hn, tagSize]

/-- Two crypto states of one session: what one sends, the other receives. -/
structure Mirrors (tx rx : SessionCrypto) : Prop where
  tx_keyed : tx.hasKeys = true
  rx_keyed : rx.hasKeys = true
  key : rx.rxKey = tx.txKey
  salt : rx.rxSalt = tx.txSalt

def mirror (c : SessionCrypto) : SessionCrypto where
  rxKey := c.txKey
  txKey := c.rxKey
  rxSalt := c.txSalt
  txSalt := c.rxSalt
  hasKeys := c.hasKeys

theorem mirrors_mirror {c : SessionCrypto} (h : c.hasKeys = true) : Mirrors c.mirror c :=
  ⟨h, h, rfl, rfl⟩

def sample : SessionCrypto where
  rxKey := .replicate 32 1
  txKey := .replicate 32 1
  hasKeys := true

theorem sample_mirrors : Mirrors sample sample := ⟨rfl, rfl, rfl, rfl⟩

theorem Mirrors.buildNonce {tx rx : SessionCrypto} (h : Mirrors tx rx) (sequence : UInt32) :
    rx.buildNonce sequence false = tx.buildNonce sequence true := by
  simp [SessionCrypto.buildNonce, h.salt]

theorem Mirrors.decrypt_encrypt {tx rx : SessionCrypto} (h : Mirrors tx rx)
    (hl : lib.DecryptInvertsEncrypt) {plaintext : Buffer} {sequence : UInt32}
    {aad sealed : Bytes} (he : tx.encrypt lib plaintext sequence aad = some sealed) :
    rx.decrypt lib sealed sequence aad = some plaintext.bytes := by
  have hlen := length_encrypt he
  unfold encrypt at he
  split at he
  · cases he
  · rename_i nonce hn
    obtain ⟨⟨ciphertext, tag⟩, hc, rfl⟩ := Option.map_eq_some_iff.mp he
    have hnonce : rx.buildNonce sequence false = nonce := by
      unfold encryptNonce at hn
      split_ifs at hn
      rw [h.buildNonce]
      exact Option.some.inj hn
    have htag : tag.toList.length = tagSize := tag.toList_length
    have hcut : (ciphertext ++ tag.toList).length - tagSize = ciphertext.length := by
      rw [List.length_append, htag, Nat.add_sub_cancel]
    have hge : ¬ (ciphertext ++ tag.toList).length < tagSize := by rw [hlen]; omega
    simp only [decrypt, h.rx_keyed, Bool.not_true, Bool.false_or, decide_eq_true_eq, if_neg hge,
      hcut, List.take_left, List.drop_left, hnonce, h.key, hl _ _ _ _ _ _ hc, if_true]

theorem encrypt_isSome (hl : lib.EncryptSucceeds) {c : SessionCrypto} (hk : c.hasKeys = true)
    (bytes : Bytes) (sequence : UInt32) (aad : Bytes) :
    (c.encrypt lib (.data bytes) sequence aad).isSome := by
  simp [encrypt, encryptNonce, hk, Buffer.isNull, Buffer.bytes, hl _ _ _ _]

end SessionCrypto

end VeyraCam
