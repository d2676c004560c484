import VeyraCam.Link.Decoded
import VeyraCam.Link.MediaKeys

/-! # Media over a link

The frames that a desktop decodes under the keys of its pairing are frames of
its phone, in their order, whatever else is sent to the media port: of the
datagrams that open, all are the phone's. The desktop keeps the keys it took
with the challenge, and the phone seals what it sends with the same.
-/

namespace VeyraCam

open FrameReassembler

theorem FrameReassembler.openPacket_none_of_some {lib : Mbedtls} {crypto : SessionCrypto}
    {d payload : Bytes} {header : PacketHeader}
    (h : openPacket lib (some crypto) d = some (header, payload)) :
    openPacket lib none d = none := by
  unfold openPacket at h ⊢
  cases hd : deserializeHeader d with
  | none => rfl
  | some header' =>
    simp only [hd, Option.isSome_some, if_true] at h ⊢
    split_ifs at h ⊢
    all_goals rfl

namespace ControlLink

/-- The plaintext of a packet under keys. -/
def keyedPlaintext : ℕ := maxPayloadSize - tagSize

/-- A packet that the phone sends, or a frame that the desktop decodes while it has keys. -/
inductive MediaTrace where
  | sent (packet : Bytes)
  | decoded (frame : VideoFrame)

def sentBy (outputs : List PhoneOutput) : List Bytes :=
  outputs.filterMap fun
    | .datagram d _ => some d.payload
    | _ => none

def mediaStep (env : Platform) (android : Android) (l : ControlLink) (move : Move) :
    ControlLink × List MediaTrace :=
  (l.step env android move, match move with
    | .send call => (sentBy (l.phone.step android (.send call)).2).map .sent
    | .datagram source data =>
      if l.desktop.crypto.isSome then
        (decodedBy (l.desktop.step env (.datagram source data)).2).map .decoded
      else []
    | _ => [])

def sentOf (trace : List MediaTrace) : List Bytes :=
  trace.filterMap fun
    | .sent packet => some packet
    | .decoded _ => none

def decodedOf (trace : List MediaTrace) : List VideoFrame :=
  trace.filterMap fun
    | .sent _ => none
    | .decoded frame => some frame

def submissions (moves : List Move) : List (Bytes × Bool × UInt64) :=
  moves.filterMap fun
    | .send (.videoNal (.data bytes) isKeyframe timestampUs) =>
      if bytes = [] then none else some (bytes, isKeyframe, timestampUs)
    | _ => none

/-- The frames of a run, as the native sender numbers them. -/
def submitted (moves : List Move) : List VideoFrame :=
  (submissions moves).mapIdx fun i f => ⟨.ofNat (i + 1), f.2.2, f.2.1, f.1⟩

/-- The move sends a video frame at most, of a size that the 16-bit fragment count holds. -/
def SendsVideo : Move → Prop
  | .send call => ∃ bytes isKeyframe timestampUs,
    call = .videoNal (.data bytes) isKeyframe timestampUs ∧
      Blocks.count keyedPlaintext bytes.length ≤ 65535
  | _ => True

variable {env : Platform} {android : Android} {K M : Set KeyPair} {l : ControlLink}
  {fs fs' out out' : List VideoFrame} {m : ℕ}

theorem carries_of_send {lib : Mbedtls} (hl : lib.DecryptInvertsEncrypt) {sender : NativeSender}
    {crypto : SessionCrypto} (hc : sender.packetizer.crypto = some crypto)
    (hk : crypto.hasKeys = true) {bytes : Bytes} (hne : bytes ≠ [])
    (hcount : Blocks.count keyedPlaintext bytes.length ≤ 65535) (isKeyframe : Bool)
    (timestampUs : UInt64) {packet : Bytes}
    (h : packet ∈ packets (sender.send lib (.videoNal (.data bytes) isKeyframe timestampUs)).2) :
    ∃ i < Blocks.count keyedPlaintext bytes.length,
      Carries lib (some crypto.mirror) keyedPlaintext sender.packetizer.sessionId
        ⟨sender.frameCounter + 1, timestampUs, isKeyframe, bytes⟩ i packet := by
  have hplain : sender.packetizer.maxPlaintext = keyedPlaintext := by
    simp [Packetizer.maxPlaintext, hc, keyedPlaintext]
  have hp : Paired lib sender.packetizer.crypto (some crypto.mirror) := by
    rw [hc]
    exact .keyed (SessionCrypto.mirrors_mirror (c := crypto.mirror) hk) hl
  have hs : ∀ f ∈ [(⟨sender.frameCounter + 1, timestampUs, isKeyframe, bytes⟩ : VideoFrame)],
      f.Sendable sender.packetizer.maxPlaintext := by
    rw [hplain]
    exact List.forall_mem_singleton.mpr ⟨hne, hcount⟩
  have hsize : ¬ (Buffer.data bytes).size = 0 := by
    simpa [Buffer.size] using hne
  have hmem : packet ∈ sentPackets lib sender.packetizer
      [⟨sender.frameCounter + 1, timestampUs, isKeyframe, bytes⟩] := by
    simp only [NativeSender.send, NativeSender.sendVideoNal, if_neg hsize] at h
    simpa [sentPackets, VideoFrame.call, Packetizer.call] using h
  obtain ⟨f, hf, i, hi, hcar⟩ := carries_of_mem_sentPackets hp hs hmem
  obtain rfl := List.mem_singleton.mp hf
  rw [hplain] at hi hcar
  exact ⟨i, hi, hcar⟩

theorem desktop_step_of_not_datagram (l : ControlLink) {move : Move}
    (hmove : ∀ source data, move ≠ .datagram source data) :
    (l.step env android move).desktop = l.desktop ∨
      ∃ e, (∀ hostIp pin onStatus, e ≠ .connectBegin hostIp pin onStatus) ∧
        (∀ source data, e ≠ .datagram source data) ∧
        (l.step env android move).desktop = (l.desktop.step env e).1 := by
  cases move with
  | connectEnd ok => exact .inr ⟨.connectEnd ok, by simp, by simp, rfl⟩
  | disconnectDevice => exact .inr ⟨.disconnectDevice, by simp, by simp, rfl⟩
  | datagram source data => exact absurd rfl (hmove source data)
  | readByDesktop myKeys =>
    simp only [step]
    split
    · exact .inl rfl
    · next line rest hl =>
      split_ifs
      · exact .inr ⟨.controlLine line myKeys, by simp, by simp, rfl⟩
      · exact .inl rfl
  | command | accept | readByPhone =>
    left
    simp only [step]
    repeat' split
    all_goals rfl
  | hangup | leave | send | tick => exact .inl rfl

theorem Watched.step (h : Watched m fs l.desktop out) (hsettled : l.desktop.Settled) {move : Move}
    (hmove : ∀ source data, move ≠ .datagram source data) :
    Watched m fs (l.step env android move).desktop out := by
  rcases @desktop_step_of_not_datagram env android l move hmove with he | ⟨e, hb, hd, he⟩ <;>
    rw [he]
  · exact h
  · exact (h.event hsettled hb hd).1

variable (env android) in
theorem Watched.keeps (h : Watched m fs l.desktop out) (hsettled : l.desktop.Settled)
    (hstate : l.desktop.pairingState ≠ .awaitingChallenge) (move : Move) :
    (l.step env android move).desktop.pairingState ≠ .awaitingChallenge ∧
      ∀ c, (l.step env android move).desktop.crypto = some c → l.desktop.crypto = some c := by
  by_cases hmove : ∃ source data, move = .datagram source data
  · obtain ⟨source, data, rfl⟩ := hmove
    have hframe : (l.desktop.onDatagram env source data).1 =
        { l.desktop with reassembler := (l.desktop.onDatagram env source data).1.reassembler } := by
      unfold ServiceManager.onDatagram
      split_ifs <;> rfl
    have hdesktop : (l.step env android (.datagram source data)).desktop =
        (l.desktop.onDatagram env source data).1 := rfl
    rw [hdesktop, hframe]
    exact ⟨hstate, fun _ hc => hc⟩
  · rcases @desktop_step_of_not_datagram env android l move
      (fun source data he => hmove ⟨source, data, he⟩) with he | ⟨e, hb, hd, he⟩ <;> rw [he]
    · exact ⟨hstate, fun _ hc => hc⟩
    · exact (h.event hsettled hb hd).2 hstate

theorem Channel.step {typed : List.Vector (Fin 10) PairingManager.pinLength} (h : Channel l)
    (hagrees : Agrees env android K M typed l) (hcommon : Common env android K M) {move : Move}
    (hm : move.Draws K M) (hw : Watched m fs l.desktop out)
    (hw' : Watched m fs' (l.step env android move).desktop out') :
    Channel (l.step env android move) := by
  obtain ⟨harmed, hcommitted, haccepted⟩ := h.phone_step env android move
  rcases h.packetizer move hagrees.phase (hagrees.step hcommon hm).phase with
    hsame | ⟨-, crypto, hcrypto, hk, ha, hholds⟩
  · constructor
    · exact harmed
    · rw [hsame]
      exact fun hkeys => haccepted (h.accepted hkeys)
    · exact hcommitted
    · rw [hsame]
      exact h.hasKeys
    · rw [hsame]
      intro pc hpc
      obtain ⟨hstate, htied⟩ := h.tied pc hpc
      obtain ⟨hstate', hkept⟩ := hw.keeps env android hagrees.settled hstate move
      exact ⟨hstate', fun c hc => htied c (hkept c hc)⟩
  · refine ⟨harmed, fun _ => ha, hcommitted, ?_, ?_⟩
    · rw [hcrypto]
      rintro _ ⟨⟩
      exact hk
    · rw [hcrypto]
      rintro _ ⟨⟩
      rcases hholds.2 with hheld | ⟨hstate, -⟩
      · refine ⟨fun hstate => ?_, fun c hc => Option.some.inj (hc.symm.trans hheld)⟩
        have harmed := (hw'.keyed _ hheld).1
        rw [hw'.awaiting hstate] at harmed
        cases harmed
      · rw [hw'.disconnected hstate, hstate]
        exact ⟨by decide, by simp⟩

/-! ## Runs with media -/

/-- Frames to send under keys, in the order of their numbers. -/
structure IsStream (fs : List VideoFrame) : Prop where
  sendable : ∀ f ∈ fs, f.Sendable keyedPlaintext
  frameId : ∀ f ∈ fs, 1 ≤ f.frameId.toNat ∧ f.frameId.toNat < 2 ^ 31
  increasing : fs.Pairwise VideoFrame.Before

theorem isStream_submitted {moves : List Move} (hlength : (submissions moves).length < 2 ^ 31)
    (hvideo : ∀ move ∈ moves, SendsVideo move) : IsStream (submitted moves) := by
  have hframeId {i : ℕ} (hi : i < (submissions moves).length) :
      (UInt32.ofNat (i + 1)).toNat = i + 1 := by
    rw [UInt32.toNat_ofNat']
    omega
  constructor
  · intro f hf
    obtain ⟨i, hi, rfl⟩ := List.mem_mapIdx.mp hf
    have hmem := List.getElem_mem hi
    generalize (submissions moves)[i] = submission at hmem
    obtain ⟨move, hmove, hsubmission⟩ := List.mem_filterMap.mp hmem
    cases move with
    | send call =>
      obtain ⟨bytes, isKeyframe, timestampUs, rfl, hcount⟩ := hvideo _ hmove
      dsimp only at hsubmission
      split_ifs at hsubmission with hne
      obtain rfl := Option.some.inj hsubmission
      exact ⟨hne, hcount⟩
    | _ => cases hsubmission
  · intro f hf
    obtain ⟨i, hi, rfl⟩ := List.mem_mapIdx.mp hf
    dsimp only
    rw [hframeId hi]
    omega
  · refine List.pairwise_iff_getElem.mpr fun i j hi hj hij => ?_
    rw [submitted, List.length_mapIdx] at hi hj
    simp only [submitted, List.getElem_mapIdx, VideoFrame.Before, UInt32.lt_iff_toNat_lt,
      hframeId hi, hframeId hj]
    omega

variable {typed : List.Vector (Fin 10) PairingManager.pinLength} {pre post : List Move}
  {move : Move} {trace : List MediaTrace}

/-- How far a run has come whose frames are those of a stream. -/
structure Streaming (env : Platform) (android : Android) (K M : Set KeyPair)
    (typed : List.Vector (Fin 10) PairingManager.pinLength) (fs : List VideoFrame)
    (pre : List Move) (l : ControlLink) (trace : List MediaTrace) : Prop where
  agrees : Agrees env android K M typed l
  channel : Channel l
  counter : l.phone.context.sender.frameCounter = .ofNat (submissions pre).length
  sent : ∀ packet ∈ sentOf trace, ∃ pc, l.phone.context.sender.packetizer.crypto = some pc ∧
    ∃ sessionId, ∃ f ∈ fs, ∃ i < Blocks.count keyedPlaintext f.data.length,
      Carries env.lib (some pc.mirror) keyedPlaintext sessionId f i packet
  watched : Watched keyedPlaintext fs l.desktop (decodedOf trace)

theorem sentOf_append (trace trace' : List MediaTrace) :
    sentOf (trace ++ trace') = sentOf trace ++ sentOf trace' := List.filterMap_append

theorem decodedOf_append (trace trace' : List MediaTrace) :
    decodedOf (trace ++ trace') = decodedOf trace ++ decodedOf trace' := List.filterMap_append

@[simp] theorem sentOf_map_sent (packets : List Bytes) : sentOf (packets.map .sent) = packets := by
  simp [sentOf, List.filterMap_map]

@[simp] theorem decodedOf_map_sent (packets : List Bytes) :
    decodedOf (packets.map .sent) = [] := by
  simp [decodedOf, List.filterMap_map]

@[simp] theorem sentOf_map_decoded (frames : List VideoFrame) :
    sentOf (frames.map .decoded) = [] := by
  simp [sentOf, List.filterMap_map]

@[simp] theorem decodedOf_map_decoded (frames : List VideoFrame) :
    decodedOf (frames.map .decoded) = frames := by
  simp [decodedOf, List.filterMap_map]

theorem mem_submitted {bytes : Bytes} {isKeyframe : Bool} {timestampUs : UInt64}
    (hne : bytes ≠ []) (pre post : List Move) :
    (⟨.ofNat (submissions pre).length + 1, timestampUs, isKeyframe, bytes⟩ : VideoFrame) ∈
      submitted (pre ++ .send (.videoNal (.data bytes) isKeyframe timestampUs) :: post) := by
  have hsubmissions : submissions
      (pre ++ .send (.videoNal (.data bytes) isKeyframe timestampUs) :: post) =
        submissions pre ++ (bytes, isKeyframe, timestampUs) :: submissions post := by
    simp only [submissions, List.filterMap_append, List.filterMap_cons, if_neg hne]
  refine List.mem_mapIdx.mpr ⟨(submissions pre).length, ?_, ?_⟩
  · rw [hsubmissions, List.length_append, List.length_cons]
    omega
  · simp only [hsubmissions, List.getElem_append_right (le_refl _), Nat.sub_self,
      List.getElem_cons_zero, UInt32.ofNat_add]
    rfl

namespace Streaming

theorem carries (h : Streaming env android K M typed fs pre l trace)
    (hcommon : Common env android K M) (hlib : env.lib.DecryptInvertsEncrypt) {bytes : Bytes}
    {isKeyframe : Bool} {timestampUs : UInt64}
    (hcount : Blocks.count keyedPlaintext bytes.length ≤ 65535)
    (hfs : fs = submitted (pre ++ .send (.videoNal (.data bytes) isKeyframe timestampUs) :: post)) :
    ∀ packet ∈ sentBy
      (l.phone.step android (.send (.videoNal (.data bytes) isKeyframe timestampUs))).2,
    ∃ pc, l.phone.context.sender.packetizer.crypto = some pc ∧
      ∃ sessionId, ∃ f ∈ fs, ∃ i < Blocks.count keyedPlaintext f.data.length,
        Carries env.lib (some pc.mirror) keyedPlaintext sessionId f i packet := by
  intro packet hpacket
  obtain ⟨output, houtput, hdatagram⟩ := List.mem_filterMap.mp hpacket
  have houtput : output ∈ (l.phone.context.send android.lib
      (.videoNal (.data bytes) isKeyframe timestampUs)).2.map
        (.datagram · l.phone.connection) := houtput
  obtain ⟨d, hd, rfl⟩ := List.mem_map.mp houtput
  obtain rfl := Option.some.inj hdatagram
  have hopen : l.phone.context.udpSocket = true := (NativeSenderContext.of_mem_send hd).1
  obtain ⟨pc, hpc⟩ := Option.isSome_iff_exists.mp (h.channel.armed.socket hopen)
  have hpacket : d.payload ∈ packets (l.phone.context.sender.send env.lib
      (.videoNal (.data bytes) isKeyframe timestampUs)).2 := by
    rw [← hcommon.lib_eq]
    unfold NativeSenderContext.send at hd
    dsimp only at hd
    rw [if_pos hopen] at hd
    obtain ⟨payload, hpayload, rfl⟩ := List.mem_map.mp hd
    exact hpayload
  have hne : bytes ≠ [] := by
    rintro rfl
    simp [NativeSender.send, NativeSender.sendVideoNal, Buffer.size, packets] at hpacket
  obtain ⟨i, hi, hcar⟩ :=
    carries_of_send hlib hpc (h.channel.hasKeys pc hpc) hne hcount isKeyframe timestampUs hpacket
  rw [h.counter] at hcar
  refine ⟨pc, hpc, _, _, ?_, i, hi, hcar⟩
  rw [hfs]
  exact mem_submitted hne pre post

/-- A datagram that the phone sent opens under the phone's keys only. -/
theorem opens (h : Streaming env android K M typed fs pre l trace) {data : Bytes}
    (hsent : data ∈ sentOf trace)
    (hopen : (openPacket env.lib l.desktop.reassembler.crypto data).isSome = true) :
    l.desktop.reassembler.crypto ≠ none ∧ (l.desktop.crypto.isSome = true →
      ∃ sessionId, ∃ f ∈ fs, ∃ i < Blocks.count keyedPlaintext f.data.length,
        Carries env.lib l.desktop.reassembler.crypto keyedPlaintext sessionId f i data) := by
  obtain ⟨pc, hpc, sessionId, f, hf, i, hi, hcar⟩ := h.sent data hsent
  constructor
  · intro hnone
    obtain ⟨header, payload, hp, -⟩ := hcar
    rw [hnone, openPacket_none_of_some hp] at hopen
    cases hopen
  · intro hsome
    obtain ⟨c, hc⟩ := Option.isSome_iff_exists.mp hsome
    rw [(h.watched.keyed c hc).1, (h.channel.tied pc hpc).2 c hc]
    exact ⟨sessionId, f, hf, i, hi, hcar⟩

/-- The phone numbers what it is given. -/
theorem counter_step (h : Streaming env android K M typed fs pre l trace)
    (hvideo : SendsVideo move) :
    (l.step env android move).phone.context.sender.frameCounter =
      .ofNat (submissions (pre ++ [move])).length := by
  have hsubmissions : submissions (pre ++ [move]) = submissions pre ++ submissions [move] :=
    List.filterMap_append
  rw [hsubmissions, List.length_append, UInt32.ofNat_add, ← h.counter]
  by_cases hsend : ∃ call, move = .send call
  · obtain ⟨call, rfl⟩ := hsend
    obtain ⟨bytes, isKeyframe, timestampUs, rfl, -⟩ := hvideo
    have hcounter : (l.step env android (.send (.videoNal (.data bytes) isKeyframe
        timestampUs))).phone.context.sender.frameCounter = (l.phone.context.sender.send android.lib
          (.videoNal (.data bytes) isKeyframe timestampUs)).1.frameCounter := rfl
    rw [hcounter]
    by_cases hne : bytes = []
    · simp [submissions, hne, NativeSender.send, NativeSender.sendVideoNal, Buffer.size]
    · simp [submissions, hne, NativeSender.send, NativeSender.sendVideoNal, Buffer.size]
  · have hsilent : submissions [move] = [] := by
      cases move with
      | send call => exact absurd ⟨call, rfl⟩ hsend
      | _ => rfl
    have hfollows := h.channel.follows_step env android fun call he => hsend ⟨call, he⟩
    rw [hsilent, hfollows.frameCounter]
    simp

theorem sent_step (h : Streaming env android K M typed fs pre l trace)
    (hphase : Phase env android K M (PairingManager.generatePin typed) (l.step env android move))
    {packet : Bytes} (hpacket : packet ∈ sentOf trace) :
    ∃ pc, (l.step env android move).phone.context.sender.packetizer.crypto = some pc ∧
      ∃ sessionId, ∃ f ∈ fs, ∃ i < Blocks.count keyedPlaintext f.data.length,
        Carries env.lib (some pc.mirror) keyedPlaintext sessionId f i packet := by
  obtain ⟨pc, hpc, hcar⟩ := h.sent packet hpacket
  rcases h.channel.packetizer move h.agrees.phase hphase with hsame | hrekeyed
  · exact ⟨pc, hsame.trans hpc, hcar⟩
  · cases hpc.symm.trans hrekeyed.keyless

theorem sent_mediaStep (h : Streaming env android K M typed fs pre l trace)
    (hcommon : Common env android K M) (hlib : env.lib.DecryptInvertsEncrypt)
    (hfs : fs = submitted (pre ++ move :: post)) (hvideo : SendsVideo move) :
    ∀ packet ∈ sentOf (l.mediaStep env android move).2,
      ∃ pc, (l.step env android move).phone.context.sender.packetizer.crypto = some pc ∧
        ∃ sessionId, ∃ f ∈ fs, ∃ i < Blocks.count keyedPlaintext f.data.length,
          Carries env.lib (some pc.mirror) keyedPlaintext sessionId f i packet := by
  intro packet hpacket
  cases move with
  | send call =>
    obtain ⟨bytes, isKeyframe, timestampUs, rfl, hcount⟩ := hvideo
    simp only [mediaStep, sentOf_map_sent] at hpacket
    obtain ⟨pc, hpc, hcar⟩ := h.carries hcommon hlib hcount hfs packet hpacket
    have hsame := NativeSender.crypto_send android.lib l.phone.context.sender
      (.videoNal (.data bytes) isKeyframe timestampUs)
    exact ⟨pc, hsame.trans hpc, hcar⟩
  | datagram source data =>
    simp only [mediaStep] at hpacket
    split_ifs at hpacket
    · rw [sentOf_map_decoded] at hpacket
      cases hpacket
    · cases hpacket
  | _ => cases hpacket

theorem watched_mediaStep (h : Streaming env android K M typed fs pre l trace)
    (hstream : IsStream fs)
    (hgenuine : ∀ source data, move = .datagram source data →
      l.desktop.udpServer.passes source data = true →
      (openPacket env.lib l.desktop.reassembler.crypto data).isSome = true →
      data ∈ sentOf trace) :
    Watched keyedPlaintext fs (l.step env android move).desktop
      (decodedOf (trace ++ (l.mediaStep env android move).2)) := by
  rw [decodedOf_append]
  by_cases hdatagram : ∃ source data, move = .datagram source data
  · obtain ⟨source, data, rfl⟩ := hdatagram
    have hwatched := h.watched.datagram env source (by decide) hstream.sendable
      hstream.frameId hstream.increasing fun hpass hopen =>
        h.opens (hgenuine source data rfl hpass hopen) hopen
    have htrace : (l.mediaStep env android (.datagram source data)).2 =
        (if l.desktop.crypto.isSome then
          decodedBy (l.desktop.onDatagram env source data).2 else []).map .decoded := by
      simp only [mediaStep, ServiceManager.step]
      split_ifs <;> rfl
    rw [htrace, decodedOf_map_decoded]
    exact hwatched
  · have hnone : decodedOf (l.mediaStep env android move).2 = [] := by
      cases move with
      | datagram source data => exact absurd ⟨source, data, rfl⟩ hdatagram
      | send call => exact decodedOf_map_sent _
      | _ => rfl
    rw [hnone, List.append_nil]
    exact h.watched.step h.agrees.settled fun source data he => hdatagram ⟨source, data, he⟩

theorem step (h : Streaming env android K M typed fs pre l trace)
    (hcommon : Common env android K M) (hlib : env.lib.DecryptInvertsEncrypt)
    (hstream : IsStream fs) (hfs : fs = submitted (pre ++ move :: post)) (hm : move.Draws K M)
    (hvideo : SendsVideo move)
    (hgenuine : ∀ source data, move = .datagram source data →
      l.desktop.udpServer.passes source data = true →
      (openPacket env.lib l.desktop.reassembler.crypto data).isSome = true →
      data ∈ sentOf trace) :
    Streaming env android K M typed fs (pre ++ [move]) (l.mediaStep env android move).1
      (trace ++ (l.mediaStep env android move).2) := by
  have hagrees := h.agrees.step hcommon hm
  have hwatched := h.watched_mediaStep hstream hgenuine
  refine ⟨hagrees, h.channel.step h.agrees hcommon hm h.watched hwatched, h.counter_step hvideo,
    ?_, hwatched⟩
  rw [sentOf_append]
  exact List.forall_mem_append.mpr ⟨fun packet hpacket => h.sent_step hagrees.phase hpacket,
    h.sent_mediaStep hcommon hlib hfs hvideo⟩

end Streaming

/-- Every datagram that the desktop lets in and that opens there was sent by its phone before. -/
def Genuine (env : Platform) (android : Android) (l : ControlLink) (moves : List Move) : Prop :=
  ∀ pre source data post, moves = pre ++ .datagram source data :: post →
    let run := Machine.exec (mediaStep env android) l pre
    run.1.desktop.udpServer.passes source data = true →
    (openPacket env.lib run.1.desktop.reassembler.crypto data).isSome = true →
    data ∈ sentOf run.2

theorem streaming_start (hostIp : Text) (onStatus : Bool) (sessionId : UInt32) :
    Streaming env android K M typed fs []
      (start env {} (Phone.create sessionId) hostIp typed onStatus) [] := by
  have harmed := Phone.armed_after android sessionId []
  constructor
  · exact agrees_start rfl rfl rfl hostIp onStatus
  · exact ⟨harmed, fun hne => absurd rfl hne, fun hne => absurd rfl hne, by rintro _ ⟨⟩,
      by rintro _ ⟨⟩⟩
  · rfl
  · exact List.forall_mem_nil _
  · exact ⟨fun _ => rfl, fun _ => rfl, fun _ => rfl, fun _ => ⟨rfl, rfl, rfl⟩, by rintro _ ⟨⟩,
      ⟨List.nil_subset _, .nil, by rintro _ ⟨⟩⟩⟩

/-- In every run of one control connection, in which nobody else's datagrams open at the desktop
and each may come any number of times and in any order, what the desktop decodes while it has
keys are frames that the phone's encoder submitted: each at most once and in their order, from a
keyframe on. -/
theorem decodedOf_sublist (hcommon : Common env android K M)
    (hlib : env.lib.DecryptInvertsEncrypt) {hostIp : Text} {onStatus : Bool} {sessionId : UInt32}
    {moves : List Move} (hm : ∀ move ∈ moves, move.Draws K M ∧ SendsVideo move)
    (hlength : (submissions moves).length < 2 ^ 31)
    (hgenuine : Genuine env android
      (start env {} (Phone.create sessionId) hostIp typed onStatus) moves) :
    let run := Machine.exec (mediaStep env android)
      (start env {} (Phone.create sessionId) hostIp typed onStatus) moves
    (decodedOf run.2).Sublist (submitted moves) ∧
      ∀ f, (decodedOf run.2).head? = some f → f.isKeyframe = true := by
  intro run
  have hstream := isStream_submitted hlength fun move hmove => (hm move hmove).2
  have hstreaming : Streaming env android K M typed (submitted moves) moves run.1 run.2 := by
    refine Machine.history_invariant (mediaStep env android) _ moves
      (I := Streaming env android K M typed (submitted moves))
      (streaming_start hostIp onStatus sessionId) ?_
    rintro pre move post he h
    obtain ⟨hdraws, hvideo⟩ := hm move (by simp [he])
    refine h.step hcommon hlib hstream (congrArg submitted he) hdraws hvideo ?_
    rintro source data rfl
    exact hgenuine pre source data post he
  obtain ⟨hsubset, hincreasing, hkeyframe⟩ := hstreaming.watched.inOrder
  exact ⟨List.sublist_of_subperm_of_pairwise (List.subperm_of_subset hincreasing.nodup hsubset)
    hincreasing hstream.increasing, hkeyframe⟩

def sampleFrames : List Move :=
  [.connectEnd true, .accept "10.0.0.9".toList PairingManager.zeroDigits (.sample 3),
    .readByDesktop (.sample 5), .readByPhone (.replicate 32 1) true, .readByDesktop (.sample 5),
    .send (.videoNal (.data [1, 2, 3]) true 5), .send (.videoNal (.data [4]) false 6)]

def samplePackets : List Bytes :=
  sentOf (Machine.exec (mediaStep .standard .json)
    (start .standard {} (.create 7) "10.0.0.2".toList PairingManager.zeroDigits true)
    sampleFrames).2

theorem genuine_of_sent {moves : List Move}
    (hmoves : ∀ source data, .datagram source data ∉ moves) {packets : List Bytes}
    (hsent : packets ⊆ sentOf (Machine.exec (mediaStep env android) l moves).2)
    (source : UInt32) : Genuine env android l (moves ++ packets.map (.datagram source)) := by
  have hmem {pre rest post : List Move} {source' : UInt32} {data : Bytes}
      (hpre : pre = moves ++ rest) (he : packets.map (.datagram source) =
        rest ++ .datagram source' data :: post) :
      data ∈ sentOf (Machine.exec (mediaStep env android) l pre).2 := by
    have hdata : Move.datagram source' data ∈ packets.map (.datagram source) := by
      rw [he]
      simp
    obtain ⟨packet, hpacket, heq⟩ := List.mem_map.mp hdata
    obtain ⟨-, rfl⟩ := Move.datagram.inj heq
    rw [hpre, Machine.exec_append, sentOf_append]
    exact List.mem_append_left _ (hsent hpacket)
  intro pre source' data post he run _ _
  rcases List.append_eq_append_iff.mp he with ⟨rest, hpre, hrest⟩ | ⟨rest, hpre, hrest⟩
  · exact hmem hpre hrest
  · cases rest with
    | nil =>
      exact hmem (by rw [hpre, List.append_nil, List.append_nil])
        (by rw [List.nil_append] at hrest ⊢; exact hrest.symm)
    | cons first rest =>
      obtain ⟨rfl, -⟩ := List.cons.inj hrest
      exact absurd (by rw [hpre]; simp) (hmoves source' data)

set_option maxRecDepth 100000 in
theorem decodedOf_sublist_sample :
    let moves := sampleFrames ++ (samplePackets ++ samplePackets).map (.datagram 0x0200000A)
    let run := Machine.exec (mediaStep .standard .json)
      (start .standard {} (.create 7) "10.0.0.2".toList PairingManager.zeroDigits true) moves
    ((decodedOf run.2).Sublist (submitted moves) ∧
      ∀ f, (decodedOf run.2).head? = some f → f.isKeyframe = true) ∧
        (decodedOf run.2).length = 2 := by
  intro moves run
  have hgenuine : Genuine .standard .json
      (start .standard {} (.create 7) "10.0.0.2".toList PairingManager.zeroDigits true) moves :=
    genuine_of_sent (by simp [sampleFrames]) (by simp [samplePackets]) _
  have hframes : ∀ move ∈ sampleFrames,
      move.Draws {KeyPair.sample 3} {KeyPair.sample 5} ∧ SendsVideo move := by
    simp only [sampleFrames, List.forall_mem_cons]
    refine ⟨by trivial, ⟨rfl, trivial⟩, ⟨rfl, trivial⟩, by trivial, ⟨rfl, trivial⟩,
      ⟨trivial, _, _, _, rfl, by decide⟩, ⟨trivial, _, _, _, rfl, by decide⟩,
      List.forall_mem_nil _⟩
  refine ⟨decodedOf_sublist common_json Mbedtls.sample_decryptInvertsEncrypt
    (List.forall_mem_append.mpr ⟨hframes, ?_⟩) (by decide) hgenuine, by decide⟩
  intro move hmove
  obtain ⟨packet, -, rfl⟩ := List.mem_map.mp hmove
  exact ⟨trivial, trivial⟩

end ControlLink

end VeyraCam
