import VeyraCam.Phone.NativeSender

/-! # The native sender context

`NativeSenderContext` with its pairing keys and its UDP socket around the
counters and the packetizer. The session keys are an object that the context
and the packetizer hold together once a pairing has completed, so a later
derivation on it would change the keys of the packetizer too.
-/

namespace VeyraCam

structure SocketAddress where
  address : UInt32
  port : UInt16
  deriving DecidableEq

structure Datagram where
  destination : SocketAddress
  payload : Bytes
  deriving DecidableEq

/-- `NativeSenderContext`. The last field is a history that no operation reads: the keys of the
successful `CompletePairing` calls. -/
structure NativeSenderContext where
  sender : NativeSender
  pendingKeys : KeyPair := ⟨.replicate 32 0, .replicate 32 0⟩
  crypto : Option SessionCrypto := none
  /-- `packetizer_` holds the object that `crypto_` points to. -/
  shared : Bool := false
  /-- `udpSocket_ >= 0`. -/
  udpSocket : Bool := false
  udpAddr : SocketAddress := ⟨0, 0⟩
  derived : List SessionCrypto := []

namespace NativeSenderContext

variable (lib : Mbedtls)

def create (sessionId : UInt32) : NativeSenderContext where
  sender := { packetizer := { sessionId } }

def closeUdp (c : NativeSenderContext) : NativeSenderContext := { c with udpSocket := false }

/-- `NativeSenderContext::ConfigureUdp`, over a parameter for `inet_pton`; `socketOk` tells
whether `socket` succeeds. -/
def configureUdp (inetPton : Text → Option UInt32) (c : NativeSenderContext) (host : Text)
    (port : UInt16) (socketOk : Bool) : NativeSenderContext × Bool :=
  let c := c.closeUdp
  if !socketOk then (c, false)
  else
    match inetPton host with
    | none => ({ c with udpAddr := { c.udpAddr with port } }, false)
    | some address => ({ c with udpSocket := true, udpAddr := { address, port } }, true)

/-- `NativeSenderContext::BeginPairing`, for the keys that `GenerateKeyPair` draws. -/
def beginPairing (c : NativeSenderContext) (keys : KeyPair) : NativeSenderContext × Text :=
  ({ c with pendingKeys := keys, crypto := some {}, shared := false },
    SessionCrypto.base64Encode lib keys.publicKey.toList)

/-- The packetizer's pointer, when the object it may share is given new contents. -/
def withShared (c : NativeSenderContext) (crypto : SessionCrypto) : NativeSenderContext :=
  if c.shared then
    { c with sender :=
      { c.sender with packetizer := c.sender.packetizer.setCrypto (some crypto) } }
  else c

def completePairing (c : NativeSenderContext) (clientPubKeyB64 : Text) :
    NativeSenderContext × Bool :=
  if c.crypto.isNone then (c, false)
  else
    let clientPub := SessionCrypto.base64Decode lib clientPubKeyB64
    if h : clientPub.length = publicKeySize then
      let (ok, crypto) := SessionCrypto.deriveSessionKeys lib true ⟨clientPub, h⟩
        c.pendingKeys.publicKey c.pendingKeys.privateKey
      let c := c.withShared crypto
      if !ok || !crypto.hasKeys then ({ c with crypto := none, shared := false }, false)
      else
        ({ c with
            crypto := some crypto
            shared := true
            sender := { c.sender with packetizer := c.sender.packetizer.setCrypto (some crypto) }
            derived := c.derived ++ [crypto] }, true)
    else (c, false)

/-- The payloads of the `sendto` calls of a send: each packet of a video frame, and for an audio
frame one packet, which is empty when there is none. -/
def payloads (call : Send) (attempts : List Packetizer.Attempt) : List Bytes :=
  match call with
  | .videoNal _ _ _ => packets attempts
  | .audioFrame audioData _ =>
    if audioData.size = 0 then [] else [(packets attempts).headD []]

def send (c : NativeSenderContext) (call : Send) : NativeSenderContext × List Datagram :=
  let (sender, attempts) := c.sender.send lib call
  ({ c with sender },
    if c.udpSocket then (payloads call attempts).map (⟨c.udpAddr, ·⟩) else [])

variable {lib} {c : NativeSenderContext}

/-- A new destination is either open at the address of the host or not open at all. -/
theorem configureUdp_cases (inetPton : Text → Option UInt32) (c : NativeSenderContext)
    (host : Text) (port : UInt16) (socketOk : Bool) :
    (c.configureUdp inetPton host port socketOk).1.udpSocket = false ∨
      ∃ address, inetPton host = some address ∧
        (c.configureUdp inetPton host port socketOk).1.udpAddr = ⟨address, port⟩ := by
  unfold configureUdp
  cases socketOk with
  | false => exact .inl rfl
  | true =>
    cases h : inetPton host with
    | none => exact .inl rfl
    | some address => exact .inr ⟨address, rfl, rfl⟩

theorem configureUdp_crypto (inetPton : Text → Option UInt32) (c : NativeSenderContext)
    (host : Text) (port : UInt16) (socketOk : Bool) :
    (c.configureUdp inetPton host port socketOk).1.crypto = c.crypto ∧
      (c.configureUdp inetPton host port socketOk).1.sender = c.sender := by
  unfold configureUdp
  cases socketOk with
  | false => exact ⟨rfl, rfl⟩
  | true => cases inetPton host <;> exact ⟨rfl, rfl⟩

theorem of_mem_send {call : Send} {d : Datagram} (h : d ∈ (c.send lib call).2) :
    c.udpSocket = true ∧ d.destination = c.udpAddr := by
  unfold send at h
  dsimp only at h
  split_ifs at h with hopen
  · obtain ⟨payload, -, rfl⟩ := List.mem_map.mp h
    exact ⟨hopen, rfl⟩
  · cases h

theorem completePairing_cases (c : NativeSenderContext) (clientPubKeyB64 : Text) :
    c.completePairing lib clientPubKeyB64 = (c, false) ∨
    (∃ clientPub, SessionCrypto.base64Decode lib clientPubKeyB64 = clientPub.toList ∧
      c.completePairing lib clientPubKeyB64 =
        ({ c.withShared {} with crypto := none, shared := false }, false) ∧
      SessionCrypto.deriveSessionKeys lib true clientPub c.pendingKeys.publicKey
        c.pendingKeys.privateKey = (false, {})) ∨
    ∃ clientPub crypto, SessionCrypto.base64Decode lib clientPubKeyB64 = clientPub.toList ∧
      SessionCrypto.deriveSessionKeys lib true clientPub c.pendingKeys.publicKey
        c.pendingKeys.privateKey = (true, crypto) ∧
      c.completePairing lib clientPubKeyB64 =
        ({ c with
            crypto := some crypto
            shared := true
            sender := { c.sender with packetizer := c.sender.packetizer.setCrypto (some crypto) }
            derived := c.derived ++ [crypto] }, true) := by
  unfold completePairing
  by_cases hnone : c.crypto.isNone = true
  · exact .inl (if_pos hnone)
  by_cases hlen : (SessionCrypto.base64Decode lib clientPubKeyB64).length = publicKeySize
  · rw [if_neg hnone]
    dsimp only
    rw [dif_pos hlen]
    right
    cases hd : SessionCrypto.deriveKeys lib true ⟨_, hlen⟩ c.pendingKeys.publicKey
        c.pendingKeys.privateKey with
    | none =>
      have hd := SessionCrypto.deriveSessionKeys_of_none hd
      refine .inl ⟨⟨_, hlen⟩, rfl, ?_, hd⟩
      rw [hd]
      rfl
    | some crypto =>
      have hk := SessionCrypto.hasKeys_of_deriveKeys hd
      have hd := SessionCrypto.deriveSessionKeys_of_some hd
      refine .inr ⟨⟨_, hlen⟩, crypto, rfl, hd, ?_⟩
      rw [hd]
      simp only [hk, Bool.not_true, Bool.or_self, Bool.false_eq_true, if_false, withShared]
      split_ifs <;> rfl
  · rw [if_neg hnone]
    dsimp only
    exact .inl (dif_neg hlen)

end NativeSenderContext

end VeyraCam
