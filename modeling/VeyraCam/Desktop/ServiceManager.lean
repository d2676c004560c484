import VeyraCam.Desktop.ControlLine
import VeyraCam.Desktop.UdpServer
import VeyraCam.Library.Machine
import VeyraCam.Packet.Reassembler

/-! # The service manager

`ServiceManager` after `Initialize`: pairing over the control connection, and
the media path from the UDP server through the reassembler to the decoder. The
control connection is served by its own thread. `ConnectDevice` resets the
pairing before `TcpControlClient::Connect` ends that thread, so lines of the
connection before can still come in between.
-/

namespace VeyraCam

inductive PairingState where
  | disconnected
  | awaitingChallenge
  | awaitingPairingOk
  | paired
  deriving DecidableEq, Repr

/-- What the code calls outside the repository. -/
structure Platform where
  lib : Mbedtls
  /-- `inet_pton` for IPv4, `none` when it does not return 1. -/
  inetPton : Text → Option UInt32
  /-- The width of `unsigned long`. -/
  ulongBits : ℕ

def Platform.sample : Platform where
  lib := .sample
  inetPton text := if text = "10.0.0.2".toList then some 0x0200000A else none
  ulongBits := 32

/-- A datagram with its source address, and the key the reassembler was armed with. -/
structure MediaOrigin where
  source : UInt32
  packetData : Bytes
  crypto : Option SessionCrypto
  deriving DecidableEq

/-- The service manager. Connections are numbered by their `ConnectDevice` calls. The last
two fields are a history that no operation reads. -/
structure ServiceManager where
  isStreaming : Bool := false
  pairingState : PairingState := .disconnected
  pin : Text := []
  token : Text := []
  hostIp : Text := []
  crypto : Option SessionCrypto := none
  statusCallback : Bool := false
  udpServer : UdpServer := {}
  reassembler : FrameReassembler MediaOrigin := {}
  /-- A `ConnectDevice` call is under way in `TcpControlClient::Connect`. -/
  connecting : Bool := false
  /-- The connection whose lines are read. -/
  connection : Option ℕ := none
  /-- The number of the last `ConnectDevice` call. -/
  attempt : ℕ := 0
  /-- The connection whose `pairing_challenge` was last accepted. -/
  challengedBy : Option ℕ := none
  deriving DecidableEq

inductive Event where
  /-- `ConnectDevice` up to its call of `TcpControlClient::Connect`. -/
  | connectBegin (hostIp pin : Text) (onStatus : Bool)
  /-- The return of that call, and the rest of `ConnectDevice`. -/
  | connectEnd (ok : Bool)
  | disconnectDevice
  /-- A line of the open connection, with the key pair that `GenerateKeyPair` would draw. -/
  | controlLine (message : Text) (myKeys : KeyPair)
  | datagram (source : UInt32) (data : Bytes)

inductive Output where
  | status (text : Text)
  | sendControlMessage (text : Text)
  /-- `MFDecoder::DecodeFrame`, with the state it is called in. -/
  | decodeFrame (frame : VideoFrame) (origins : List MediaOrigin) (during : ServiceManager)
  deriving DecidableEq

namespace ServiceManager

variable (env : Platform)

def report (s : ServiceManager) (text : Text) : List Output :=
  if s.statusCallback then [.status text] else []

def pairingResponse (s : ServiceManager) (myKeys : KeyPair) : Text :=
  "\x7b".toList ++ jsonField "type".toList "pairing_response".toList ++ ",".toList ++
    jsonField "pin".toList s.pin ++ ",".toList ++
    jsonField "client_pubkey".toList (SessionCrypto.base64Encode env.lib myKeys.publicKey.toList) ++
    "\x7d".toList

/-- The session keys that a challenge leads to, if it carries a public key they derive from. -/
def challengeCrypto (message : Text) (myKeys : KeyPair) : Option SessionCrypto :=
  let serverPub :=
    SessionCrypto.base64Decode env.lib (extractJsonString message "server_pubkey".toList)
  if h : serverPub.length = publicKeySize then
    let (ok, crypto) := SessionCrypto.deriveSessionKeys env.lib false ⟨serverPub, h⟩
      myKeys.publicKey myKeys.privateKey
    if ok then some crypto else none
  else none

/-- The last locked section of `HandlePairingChallenge`. -/
def acceptChallenge (s : ServiceManager) (crypto : SessionCrypto) (sessionId : UInt32) :
    ServiceManager :=
  let reassembler := s.reassembler.setCrypto (some crypto)
  { s with
    crypto := some crypto
    reassembler :=
      if sessionId ≠ 0 then reassembler.setExpectedSessionId sessionId else reassembler
    udpServer := .setExpectedPeer env.inetPton s.hostIp
    pairingState := .awaitingPairingOk
    challengedBy := s.connection }

def handlePairingChallenge (s : ServiceManager) (serverPubKeyB64 : Text) (sessionId : UInt32)
    (myKeys : KeyPair) : ServiceManager × List Output :=
  if s.pairingState ≠ .awaitingChallenge then (s, [])
  else if serverPubKeyB64.isEmpty then (s, s.report "pairing_error:missing_pubkey".toList)
  else
    let serverPub := SessionCrypto.base64Decode env.lib serverPubKeyB64
    if h : serverPub.length = publicKeySize then
      let (ok, crypto) := SessionCrypto.deriveSessionKeys env.lib false ⟨serverPub, h⟩
        myKeys.publicKey myKeys.privateKey
      if !ok || !crypto.hasKeys then (s, s.report "pairing_error:derive_failed".toList)
      else (s.acceptChallenge env crypto sessionId,
        [.sendControlMessage (s.pairingResponse env myKeys)])
    else (s, s.report "pairing_error:invalid_pubkey".toList)

def streamConfig : Text :=
  "\x7b\"video\":\x7b\"width\":1280,\"height\":720,\"fps\":30,\"bitrate\":2500000\x7d\x7d".toList

/-- `ServiceManager::HandlePairingResult`. It does not check the pairing state. -/
def handlePairingResult (s : ServiceManager) (token errorReason : Text) :
    ServiceManager × List Output :=
  if !errorReason.isEmpty then
    ({ s with pairingState := .disconnected, isStreaming := false, crypto := none },
      s.report ("pairing_error:".toList ++ errorReason))
  else if token.isEmpty then (s, s.report "pairing_error:missing_token".toList)
  else
    ({ s with token, pairingState := .paired, isStreaming := true },
      s.report "paired".toList ++
        [.sendControlMessage (buildControlMessage token "startStream".toList streamConfig),
          .sendControlMessage (buildControlMessage token "hello".toList [])])

def onTcpControlMessage (s : ServiceManager) (message : Text) (myKeys : KeyPair) :
    ServiceManager × List Output :=
  let type := extractJsonString message "type".toList
  if type = "pairing_challenge".toList then
    let sessionId := stoul env.ulongBits (extractJsonString message "session_id".toList)
    s.handlePairingChallenge env (extractJsonString message "server_pubkey".toList)
      (.ofNat (sessionId.getD 0)) myKeys
  else if type = "pairing_ok".toList then
    s.handlePairingResult (extractJsonString message "token".toList) []
  else if type = "pairing_error".toList then
    s.handlePairingResult [] (extractJsonString message "reason".toList)
  else (s, [])

/-- The two callbacks given to the reassembler: decode a frame, or ask for a keyframe. -/
def onCallback (s : ServiceManager) : Callback MediaOrigin → List Output
  | .frameReady frame origins => [.decodeFrame frame origins s]
  | .missingKeyframe _ =>
    if s.isStreaming then
      [.sendControlMessage (buildControlMessage s.token "requestIdr".toList [])]
    else []

/-- `ServiceManager::OnUdpPacketReceived`, behind the UDP server's source filter. -/
def onDatagram (s : ServiceManager) (source : UInt32) (data : Bytes) :
    ServiceManager × List Output :=
  if s.udpServer.passes source data then
    let result := s.reassembler.pushPacket env.lib ⟨source, data, s.reassembler.crypto⟩ data
    ({ s with reassembler := result.state }, result.calls.flatMap s.onCallback)
  else (s, [])

/-- One event. `ConnectDevice` is called by one thread, and lines are only read while
a connection is open. -/
def step (s : ServiceManager) : Event → ServiceManager × List Output
  | .connectBegin hostIp pin onStatus =>
    if s.connecting then (s, [])
    else
      ({ s with
          pin, hostIp
          token := []
          crypto := none
          pairingState := .awaitingChallenge
          statusCallback := onStatus
          connecting := true
          attempt := s.attempt + 1 }, [])
  | .connectEnd ok =>
    if !s.connecting then (s, [])
    else if ok then
      ({ s with connecting := false, connection := some s.attempt },
        s.report "waiting_for_challenge".toList)
    else
      ({ s with connecting := false, connection := none, pairingState := .disconnected },
        s.report "connect_failed".toList)
  | .disconnectDevice =>
    ({ s with
        isStreaming := false
        pairingState := .disconnected
        token := []
        crypto := none
        udpServer := .setExpectedPeer env.inetPton []
        connection := none }, [])
  | .controlLine message myKeys =>
    if s.connection.isSome then s.onTcpControlMessage env message myKeys else (s, [])
  | .datagram source data => s.onDatagram env source data

variable {env}

theorem hasKeys_of_challengeCrypto {message : Text} {myKeys : KeyPair} {crypto : SessionCrypto}
    (h : challengeCrypto env message myKeys = some crypto) : crypto.hasKeys = true := by
  unfold challengeCrypto at h
  dsimp only at h
  split_ifs at h with hlen hok
  obtain rfl := Option.some.inj h
  exact SessionCrypto.hasKeys_of_deriveSessionKeys (Prod.ext hok rfl)

theorem onTcpControlMessage_cases (s : ServiceManager) (message : Text) (myKeys : KeyPair) :
    (∃ crypto sessionId, extractJsonString message "type".toList = "pairing_challenge".toList ∧
      s.pairingState = .awaitingChallenge ∧ challengeCrypto env message myKeys = some crypto ∧
      (s.onTcpControlMessage env message myKeys).1 = s.acceptChallenge env crypto sessionId) ∨
    (extractJsonString message "type".toList = "pairing_ok".toList ∧
      (extractJsonString message "token".toList).isEmpty = false ∧
      (s.onTcpControlMessage env message myKeys).1 =
        { s with
          token := extractJsonString message "token".toList
          pairingState := .paired
          isStreaming := true }) ∨
    (s.onTcpControlMessage env message myKeys).1 =
      { s with pairingState := .disconnected, isStreaming := false, crypto := none } ∨
    (s.onTcpControlMessage env message myKeys).1 = s := by
  unfold onTcpControlMessage
  dsimp only
  split_ifs with hchallenge hok herror
  · unfold handlePairingChallenge
    dsimp only
    split_ifs with hstate hempty hlen hfail
    · exact .inr (.inr (.inr rfl))
    · exact .inr (.inr (.inr rfl))
    · exact .inr (.inr (.inr rfl))
    · refine .inl ⟨_, _, hchallenge, not_not.mp hstate, ?_, rfl⟩
      have hok : (SessionCrypto.deriveSessionKeys env.lib false ⟨_, hlen⟩ myKeys.publicKey
          myKeys.privateKey).1 = true := by
        by_contra hne
        exact hfail (by rw [Bool.eq_false_iff.mpr hne]; rfl)
      rw [challengeCrypto, dif_pos hlen]
      exact if_pos hok
    · exact .inr (.inr (.inr rfl))
  · unfold handlePairingResult
    simp only [List.isEmpty_nil, Bool.not_true, Bool.false_eq_true, if_false]
    split_ifs with hempty
    · exact .inr (.inr (.inr rfl))
    · exact .inr (.inl ⟨hok, by simpa using hempty, rfl⟩)
  · unfold handlePairingResult
    split_ifs with _ hempty
    · exact .inr (.inr (.inl rfl))
    · exact .inr (.inr (.inr rfl))
    · exact absurd rfl hempty
  · exact .inr (.inr (.inr rfl))

theorem ne_decodeFrame_of_onTcpControlMessage (s : ServiceManager) (message : Text)
    (myKeys : KeyPair) {o : Output} (ho : o ∈ (s.onTcpControlMessage env message myKeys).2)
    (frame : VideoFrame) (origins : List MediaOrigin) (during : ServiceManager) :
    o ≠ .decodeFrame frame origins during := by
  rintro rfl
  unfold onTcpControlMessage handlePairingChallenge handlePairingResult report at ho
  dsimp only at ho
  split_ifs at ho <;> simp at ho

end ServiceManager

end VeyraCam
