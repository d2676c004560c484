import VeyraCam.Packet.Packetizer

/-! # Nonces of a packetizer

A keyed packetizer numbers the packets it attempts with a 32-bit counter, and
each nonce is the salt with the packet's number. A nonce is therefore built
again exactly when two sealed packets are a multiple of `2 ^ 32` packets apart.
-/

namespace VeyraCam.Packetizer

variable {lib : Mbedtls} {p : Packetizer} {c : SessionCrypto}

/-- One mark for each packet a call attempts under a key: whether `Encrypt` gets to
build a nonce, which it does unless it is handed a null pointer with a size. -/
def seals (p : Packetizer) : Call → List Bool
  | .video frameData _ _ _ =>
    if frameData.isNull || frameData.size = 0 then []
    else .replicate (p.fragmentCount frameData.size).toNat true
  | .audio audioData _ _ =>
    if !audioData.isNull && maxPayloadSize - tagSize < audioData.size then []
    else if audioData.size = 0 then []
    else [!audioData.isNull]

def noncesFrom (c : SessionCrypto) (sequence : UInt32) (marks : List Bool) :
    List (Option (FixedBytes 12)) :=
  marks.mapIdx fun i mark => if mark then some (c.buildNonce (sequence + .ofNat i) true) else none

theorem noncesFrom_append (sequence : UInt32) (ms ns : List Bool) :
    noncesFrom c sequence (ms ++ ns) =
      noncesFrom c sequence ms ++ noncesFrom c (sequence + .ofNat ms.length) ns := by
  simp only [noncesFrom, List.mapIdx_append, UInt32.add_assoc, ← UInt32.ofNat_add,
    Nat.add_comm ms.length]

theorem noncesFrom_singleton (sequence : UInt32) (mark : Bool) :
    noncesFrom c sequence [mark] =
      [if mark then some (c.buildNonce sequence true) else none] := by
  simp [noncesFrom]

theorem seals_congr {p q : Packetizer} (h : p.crypto = q.crypto) : p.seals = q.seals := by
  funext k
  cases k <;> simp only [seals, fragmentCount, maxPlaintext_congr h]

theorem sendPacket_nonce (hc : p.crypto = some c) (header : PacketHeader) (payload : Buffer) :
    (p.sendPacket lib header payload).2.nonce = c.encryptNonce payload p.packetSequence := by
  simp only [sendPacket, hc]

theorem exec_packetizeFragment_nonces (hc : p.crypto = some c) (hk : c.hasKeys = true)
    (frameData : Bytes) (frameId : UInt32) (timestampUs : UInt64) (isKeyframe : Bool)
    (count : UInt16) (n : ℕ) :
    (Machine.exec (packetizeFragment lib frameData frameId timestampUs isKeyframe count) p
      (List.range n)).2.map (·.nonce) =
        noncesFrom c p.packetSequence (.replicate n true) := by
  induction n with
  | zero => rfl
  | succ n ih =>
    rw [List.range_succ, Machine.exec_concat, List.map_append, ih, List.replicate_succ',
      noncesFrom_append, exec_packetizeFragment, List.length_replicate, noncesFrom_singleton]
    simp only [packetizeFragment, List.map_cons, List.map_nil]
    rw [sendPacket_nonce (c := c) (by rw [advance_crypto, hc])]
    simp [SessionCrypto.encryptNonce, hk, Buffer.isNull, advance]

/-- One call advances the counter by the packets it attempts, and builds their nonces. -/
theorem call_nonces (lib : Mbedtls) (hc : p.crypto = some c) (hk : c.hasKeys = true) (k : Call) :
    (p.call lib k).1 = p.advance (p.seals k).length ∧
      (p.call lib k).2.map (·.nonce) = noncesFrom c p.packetSequence (p.seals k) := by
  cases k with
  | video frameData frameId timestampUs isKeyframe =>
    simp only [call, packetizeFrame, seals]
    split_ifs
    · exact ⟨(advance_zero p).symm, rfl⟩
    · rw [exec_packetizeFragment_nonces hc hk, exec_packetizeFragment, List.length_replicate]
      exact ⟨rfl, rfl⟩
  | audio audioData frameId timestampUs =>
    simp only [call, packetizeAudio, seals, hc, Option.isSome_some, Bool.true_and,
      decide_eq_true_eq]
    split_ifs with h₁ h₂
    · exact ⟨(advance_zero p).symm, rfl⟩
    · exact ⟨(advance_zero p).symm, rfl⟩
    · refine ⟨sendPacket_fst_eq_advance .., ?_⟩
      rw [noncesFrom_singleton, List.map_singleton, sendPacket_nonce hc]
      have hpos : 0 < audioData.size := Nat.pos_of_ne_zero h₂
      cases audioData <;> simp_all [SessionCrypto.encryptNonce, Buffer.isNull]

/-- The nonces of a run, in order, with `none` for a packet that gets none. -/
theorem exec_nonces (hc : p.crypto = some c) (hk : c.hasKeys = true) (calls : List Call) :
    (Machine.exec (call lib) p calls).2.map (·.nonce) =
      noncesFrom c p.packetSequence (calls.flatMap p.seals) := by
  induction calls generalizing p with
  | nil => rfl
  | cons k calls ih =>
    obtain ⟨hstate, hnonces⟩ := call_nonces lib hc hk k
    rw [Machine.exec_cons, List.map_append, hnonces, hstate, List.flatMap_cons,
      noncesFrom_append, ih (by rw [advance_crypto, hc]),
      seals_congr (advance_crypto (p := p) (n := (p.seals k).length))]
    rfl

/-- Two sealed packets are a multiple of `2 ^ 32` packets apart. -/
def Wraps (marks : List Bool) : Prop :=
  ∃ i j, i < j ∧ marks[i]? = some true ∧ marks[j]? = some true ∧ 2 ^ 32 ∣ j - i

theorem buildNonce_add_inj (sequence : UInt32) {i j : ℕ} (h : i ≤ j) :
    c.buildNonce (sequence + .ofNat i) true = c.buildNonce (sequence + .ofNat j) true ↔
      2 ^ 32 ∣ j - i := by
  rw [(c.buildNonce_injective true).eq_iff, UInt32.add_right_inj, ← UInt32.toNat_inj,
    UInt32.toNat_ofNat', UInt32.toNat_ofNat']
  omega

theorem nodup_noncesFrom_iff (sequence : UInt32) (marks : List Bool) :
    ((noncesFrom c sequence marks).filterMap id).Nodup ↔ ¬ Wraps marks := by
  rw [List.Nodup, List.pairwise_filterMap, List.pairwise_iff_getElem]
  simp only [noncesFrom, List.getElem_mapIdx, List.length_mapIdx, id_eq, Wraps, not_exists,
    not_and]
  constructor
  · intro h i j hij hi hj hd
    obtain ⟨hi', hi⟩ := List.getElem?_eq_some_iff.mp hi
    obtain ⟨hj', hj⟩ := List.getElem?_eq_some_iff.mp hj
    exact h i j hi' hj' hij _ (by rw [hi, if_pos rfl]) _ (by rw [hj, if_pos rfl])
      ((buildNonce_add_inj sequence hij.le).mpr hd)
  · intro h i j hi hj hij a ha b hb hab
    split_ifs at ha hb with hmi hmj
    rw [← Option.some.inj ha, ← Option.some.inj hb] at hab
    exact h i j hij (List.getElem?_eq_some_iff.mpr ⟨hi, hmi⟩)
      (List.getElem?_eq_some_iff.mpr ⟨hj, hmj⟩) ((buildNonce_add_inj sequence hij.le).mp hab)

theorem filterMap_nonce (attempts : List Attempt) :
    attempts.filterMap (·.nonce) = (attempts.map (·.nonce)).filterMap id := by
  rw [List.filterMap_map]; rfl

/-- No nonce is built twice exactly when no two sealed packets are a multiple of `2 ^ 32`
packets apart. -/
theorem nodup_nonces_iff (hc : p.crypto = some c) (hk : c.hasKeys = true) (calls : List Call) :
    ((Machine.exec (call lib) p calls).2.filterMap (·.nonce)).Nodup ↔
      ¬ Wraps (calls.flatMap p.seals) := by
  rw [filterMap_nonce, exec_nonces hc hk, nodup_noncesFrom_iff]

theorem nodup_nonces_iff_sample :
    let p : Packetizer := ⟨7, 0, some .sample⟩
    let calls : List Call :=
      [.video (.data [1, 2, 3]) 1 5 true, .audio (.null 4) 1 5, .audio (.data [4]) 2 6]
    ((Machine.exec (call .sample) p calls).2.filterMap (·.nonce)).Nodup ↔
      ¬ Wraps (calls.flatMap p.seals) :=
  nodup_nonces_iff rfl rfl _

theorem not_wraps_of_length_le {marks : List Bool} (h : marks.length ≤ 2 ^ 32) :
    ¬ Wraps marks := by
  rintro ⟨i, j, hij, -, hj, hd⟩
  have hlt : j < marks.length := (List.getElem?_eq_some_iff.mp hj).1
  have := Nat.le_of_dvd (by omega) hd
  omega

theorem wraps_replicate {n : ℕ} (h : 2 ^ 32 < n) : Wraps (.replicate n true) :=
  ⟨0, 2 ^ 32, by omega, by rw [List.getElem?_replicate_of_lt (by omega)],
    by rw [List.getElem?_replicate_of_lt h], dvd_rfl⟩

/-- One more audio packet than there are sequence numbers builds the first nonce again. -/
theorem not_nodup_nonces :
    ¬ ((Machine.exec (call .sample) ⟨7, 0, some .sample⟩
      (.replicate (2 ^ 32 + 1) (.audio (.data [4]) 1 5))).2.filterMap (·.nonce)).Nodup := by
  have hs : seals ⟨7, 0, some .sample⟩ (.audio (.data [4]) 1 5) = [true] := rfl
  rw [filterMap_nonce, exec_nonces rfl rfl, nodup_noncesFrom_iff, not_not,
    List.flatMap_replicate, hs, List.flatten_replicate_singleton]
  exact wraps_replicate (Nat.lt_succ_self _)

end VeyraCam.Packetizer
