import VeyraCam.Crypto.SessionCrypto
import VeyraCam.Library.Base64

/-! # The pairing manager

The phone's side of pairing: a PIN for each connection, a token once the PIN has
been entered, and a lockout after five wrong PINs.
-/

namespace VeyraCam

inductive PairingResult where
  | ok
  | invalidPin
  | locked
  | notAwaiting
  deriving DecidableEq, Repr

/-- A PIN that was compared: when, and whether it was the right one. -/
structure Comparison where
  at_ms : ℕ
  matched : Bool
  deriving DecidableEq

inductive PairingManager.State where
  | idle
  | awaitingPin
  | paired
  | locked
  deriving DecidableEq, Repr

/-- The pairing manager. The last two fields are a history that no operation reads: the PINs
compared and the tokens minted so far. -/
structure PairingManager where
  state : PairingManager.State := .idle
  currentPin : Option Text := none
  authToken : Option Text := none
  failedAttempts : ℕ := 0
  lockUntilMs : ℕ := 0
  pairedClientFingerprint : Option Text := none
  comparisons : List Comparison := []
  tokens : List Text := []
  deriving DecidableEq

namespace PairingManager

def maxAttempts : ℕ := 5
def lockoutMs : ℕ := 30000
def pinLength : ℕ := 6

/-- `toByteArray(Charsets.US_ASCII)`, which writes a question mark for any other character. -/
def asciiBytes (s : Text) : Bytes := s.map fun c => if c.toNat < 128 then .ofNat c.toNat else 63

/-- `generatePin`, for the digits that `nextInt(10)` draws. -/
def generatePin (digits : List.Vector (Fin 10) pinLength) : Text :=
  digits.toList.map fun d => .ofNat (d.val + 48)

def zeroDigits : List.Vector (Fin 10) pinLength := .replicate 6 0

def startPairing (p : PairingManager) (clientFingerprint : Text) (now : ℕ)
    (digits : List.Vector (Fin 10) pinLength) : PairingManager × Option Text :=
  if p.state = .locked ∧ now < p.lockUntilMs then (p, none)
  else
    let pin := generatePin digits
    ({ p with
        state := .awaitingPin
        currentPin := some pin
        authToken := none
        pairedClientFingerprint := some clientFingerprint }, some pin)

/-- `verifyPin` past its first check: a lockout that is over ends. -/
def unlocked (p : PairingManager) : PairingManager :=
  if p.state = .locked then { p with state := .awaitingPin, failedAttempts := 0 } else p

/-- The end of `verifyPin` when the PIN does not match. -/
def refuse (p : PairingManager) (now : ℕ) : PairingManager :=
  let p := { p with
    failedAttempts := p.failedAttempts + 1
    comparisons := p.comparisons ++ [⟨now, false⟩] }
  if maxAttempts ≤ p.failedAttempts then
    { p with state := .locked, lockUntilMs := now + lockoutMs }
  else p

/-- Its end when it does: a token is minted from the bytes drawn. -/
def succeed (p : PairingManager) (now : ℕ) (tokenBytes : FixedBytes 32) : PairingManager :=
  let token := Base64.encode tokenBytes.toList
  { p with
    authToken := some token
    state := .paired
    failedAttempts := 0
    comparisons := p.comparisons ++ [⟨now, true⟩]
    tokens := p.tokens ++ [token] }

def verifyPin (p : PairingManager) (input : Text) (now : ℕ) (tokenBytes : FixedBytes 32) :
    PairingManager × PairingResult :=
  if p.state = .locked ∧ now < p.lockUntilMs then (p, .locked)
  else
    let p := p.unlocked
    if p.state ≠ .awaitingPin then (p, .notAwaiting)
    else
      match p.currentPin with
      | none => (p, .notAwaiting)
      | some expected =>
        if asciiBytes input = asciiBytes expected then (p.succeed now tokenBytes, .ok)
        else (p.refuse now, .invalidPin)

def isTokenValid (p : PairingManager) (candidate : Text) : Bool :=
  p.authToken.any fun expected => asciiBytes candidate = asciiBytes expected

def reset (p : PairingManager) : PairingManager :=
  { p with
    state := .idle
    currentPin := none
    authToken := none
    failedAttempts := 0
    lockUntilMs := 0
    pairedClientFingerprint := none }

variable {p : PairingManager} {input : Text} {now : ℕ} {tokenBytes : FixedBytes 32}

@[simp] theorem unlocked_currentPin : p.unlocked.currentPin = p.currentPin := by
  unfold unlocked; split_ifs <;> rfl

@[simp] theorem unlocked_authToken : p.unlocked.authToken = p.authToken := by
  unfold unlocked; split_ifs <;> rfl

@[simp] theorem unlocked_tokens : p.unlocked.tokens = p.tokens := by
  unfold unlocked; split_ifs <;> rfl

@[simp] theorem refuse_currentPin : (p.refuse now).currentPin = p.currentPin := by
  unfold refuse; dsimp only; split_ifs <;> rfl

@[simp] theorem refuse_authToken : (p.refuse now).authToken = p.authToken := by
  unfold refuse; dsimp only; split_ifs <;> rfl

@[simp] theorem refuse_tokens : (p.refuse now).tokens = p.tokens := by
  unfold refuse; dsimp only; split_ifs <;> rfl

/-- Everything `verifyPin` can do. -/
theorem verifyPin_cases (p : PairingManager) (input : Text) (now : ℕ)
    (tokenBytes : FixedBytes 32) :
    (p.state = .locked ∧ now < p.lockUntilMs ∧
      p.verifyPin input now tokenBytes = (p, .locked)) ∨
    (¬ (p.state = .locked ∧ now < p.lockUntilMs) ∧
      (p.unlocked.state ≠ .awaitingPin ∨ p.currentPin = none) ∧
      p.verifyPin input now tokenBytes = (p.unlocked, .notAwaiting)) ∨
    (¬ (p.state = .locked ∧ now < p.lockUntilMs) ∧ p.unlocked.state = .awaitingPin ∧
      ∃ expected, p.currentPin = some expected ∧
        (asciiBytes input = asciiBytes expected ∧
            p.verifyPin input now tokenBytes = (p.unlocked.succeed now tokenBytes, .ok) ∨
          asciiBytes input ≠ asciiBytes expected ∧
            p.verifyPin input now tokenBytes = (p.unlocked.refuse now, .invalidPin))) := by
  unfold verifyPin
  by_cases hlock : p.state = .locked ∧ now < p.lockUntilMs
  · exact .inl ⟨hlock.1, hlock.2, if_pos hlock⟩
  · right
    rw [if_neg hlock]
    by_cases hstate : p.unlocked.state = .awaitingPin
    · cases hpin : p.currentPin with
      | none => exact .inl ⟨hlock, .inr rfl, by simp [hpin]⟩
      | some expected =>
        refine .inr ⟨hlock, hstate, expected, rfl, ?_⟩
        by_cases hmatch : asciiBytes input = asciiBytes expected
        · exact .inl ⟨hmatch, by simp [hstate, hpin, hmatch]⟩
        · exact .inr ⟨hmatch, by simp [hstate, hpin, hmatch]⟩
    · exact .inl ⟨hlock, .inl hstate, by simp [hstate]⟩

def IsAscii (s : Text) : Prop := ∀ c ∈ s, c.toNat < 128 ∧ c.toNat ≠ 63

theorem eq_of_asciiBytes_eq {s t : Text} (ht : IsAscii t) (h : asciiBytes s = asciiBytes t) :
    s = t := by
  induction t generalizing s with
  | nil => exact List.map_eq_nil_iff.mp h
  | cons d t ih =>
    obtain ⟨c, s, rfl⟩ : ∃ c s', s = c :: s' := by
      cases s with
      | nil => cases h
      | cons c s => exact ⟨c, s, rfl⟩
    obtain ⟨hhead, htail⟩ := List.cons.inj h
    obtain ⟨hd, ht⟩ := List.forall_mem_cons.mp ht
    rw [ih ht htail]
    congr 1
    dsimp only at hhead
    have hc : c.toNat < 128 := by
      by_contra hc
      rw [if_neg hc, if_pos hd.1, ← UInt8.toNat_inj, UInt8.toNat_ofNat'] at hhead
      have h63 : (63 : UInt8).toNat = 63 := rfl
      omega
    rw [if_pos hc, if_pos hd.1, ← UInt8.toNat_inj, UInt8.toNat_ofNat', UInt8.toNat_ofNat'] at hhead
    exact Char.toNat_inj.mp (by omega)

theorem forall_mem_generatePin {P : Char → Prop} (h : ∀ d : Fin 10, P (.ofNat (d.val + 48)))
    (digits : List.Vector (Fin 10) pinLength) : ∀ c ∈ generatePin digits, P c := by
  intro c hc
  obtain ⟨d, -, rfl⟩ := List.mem_map.mp hc
  exact h d

theorem isAscii_generatePin (digits : List.Vector (Fin 10) pinLength) :
    IsAscii (generatePin digits) := forall_mem_generatePin (by decide) digits

theorem isAscii_token (bs : Bytes) : IsAscii (Base64.encode bs) :=
  Base64.forall_mem_encode (by decide) (by decide)

end PairingManager

end VeyraCam
