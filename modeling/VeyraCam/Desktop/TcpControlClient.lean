import VeyraCam.Library.Machine

/-! # The control client and its thread

`TcpControlClient` starts a thread for each connection and joins it in `Disconnect`,
which returns early where the connection is gone already. A thread that ends by
itself is therefore never joined, and the next connection, or the destructor, finds
it still joinable and ends the process.
-/

namespace VeyraCam

namespace TcpControlClient

inductive Call where
  /-- `Connect`, with whether the host is reached. -/
  | connect (reached : Bool)
  | disconnect
  | destroy
  deriving DecidableEq, Repr

inductive Phase where
  | idle
  /-- `Disconnect` has closed the socket and waits to join the thread, for the call. -/
  | disconnecting (call : Call)
  | destroyed
  /-- `readThread_` has been assigned to or destroyed while it was joinable. -/
  | terminated
  deriving DecidableEq, Repr

end TcpControlClient

open TcpControlClient in
/-- `TcpControlClient`, with what its owner is at. -/
structure TcpControlClient where
  isConnected : Bool := false
  joinable : Bool := false
  /-- `ReadLoop` has not returned. -/
  reading : Bool := false
  phase : Phase := .idle
  deriving DecidableEq, Repr

namespace TcpControlClient

inductive Event where
  | call (call : Call)
  /-- The peer has closed the connection, or `Disconnect` has, and `ReadLoop` returns. -/
  | readLoopEnds
  /-- `join` returns. -/
  | joined
  deriving DecidableEq, Repr

inductive Output where
  /-- `Connect` returns. -/
  | connectReturned (result : Bool)
  deriving DecidableEq, Repr

/-- The rest of a call, after `Disconnect`. -/
def proceed (s : TcpControlClient) : Call → TcpControlClient × List Output
  | .connect reached =>
    if !reached then ({ s with phase := .idle }, [.connectReturned false])
    else if s.joinable then ({ s with isConnected := true, phase := .terminated }, [])
    else
      ({ isConnected := true, joinable := true, reading := true, phase := .idle },
        [.connectReturned true])
  | .disconnect => ({ s with phase := .idle }, [])
  | .destroy => ({ s with phase := if s.joinable then .terminated else .destroyed }, [])

/-- What can happen; calls are made one after the other, and not after the destructor. -/
def step (s : TcpControlClient) : Event → TcpControlClient × List Output
  | .call call =>
    if s.phase ≠ .idle then (s, [])
    else if !s.isConnected then s.proceed call
    else ({ s with isConnected := false, phase := .disconnecting call }, [])
  | .readLoopEnds =>
    if s.reading then ({ s with reading := false, isConnected := false }, []) else (s, [])
  | .joined =>
    match s.phase with
    | .disconnecting call =>
      if s.reading then (s, []) else { s with joinable := false }.proceed call
    | _ => (s, [])

/-- The thread does not end by itself, but when `Disconnect` has closed the connection. -/
def EndsInDisconnect (s : TcpControlClient) : Event → Prop
  | .readLoopEnds => s.reading = true → s.phase ≠ .idle
  | _ => True

/-- No call ends the process, and a new connection can be made between calls. -/
structure Survives (s : TcpControlClient) : Prop where
  not_terminated : ∀ call, (s.step (.call call)).1.phase ≠ .terminated
  reconnects : s.phase = .idle →
    .connectReturned true ∈
      (Machine.exec step s [.call (.connect true), .readLoopEnds, .joined]).2

/-- The thread is there to be joined exactly while there is a connection or one is being closed. -/
def Joined (s : TcpControlClient) : Prop :=
  match s.phase with
  | .idle => s.joinable = s.isConnected ∧ s.reading = s.isConnected
  | .disconnecting _ => s.isConnected = false ∧ s.joinable = true
  | .destroyed => s.joinable = false ∧ s.reading = false
  | .terminated => False

variable {s : TcpControlClient}

theorem Joined.of_idle (h : s.Joined) (hphase : s.phase = .idle) :
    s.joinable = s.isConnected ∧ s.reading = s.isConnected := by
  rwa [Joined, hphase] at h

theorem Joined.not_terminated (h : s.Joined) : s.phase ≠ .terminated := by
  intro hphase
  rwa [Joined, hphase] at h

theorem joined_proceed (hjoinable : s.joinable = false) (hreading : s.reading = false)
    (hconnected : s.isConnected = false) (call : Call) : (s.proceed call).1.Joined := by
  obtain ⟨isConnected, joinable, reading, phase⟩ := s
  obtain rfl : joinable = false := hjoinable
  obtain rfl : reading = false := hreading
  obtain rfl : isConnected = false := hconnected
  cases call with
  | connect reached => cases reached <;> exact ⟨rfl, rfl⟩
  | disconnect => exact ⟨rfl, rfl⟩
  | destroy => exact ⟨rfl, rfl⟩

theorem Joined.call (h : s.Joined) (call : Call) : (s.step (.call call)).1.Joined := by
  rw [step]
  split_ifs with hphase hconnected
  · exact h
  · rw [Bool.not_eq_true'] at hconnected
    obtain ⟨hjoinable, hreading⟩ := h.of_idle (not_not.mp hphase)
    exact joined_proceed (hjoinable.trans hconnected) (hreading.trans hconnected) hconnected call
  · rw [Bool.not_eq_true', Bool.not_eq_false] at hconnected
    exact ⟨rfl, (h.of_idle (not_not.mp hphase)).1.trans hconnected⟩

theorem Joined.joined (h : s.Joined) : (s.step .joined).1.Joined := by
  rw [step]
  split
  · next call hphase =>
    split_ifs with hreading
    · exact h
    · rw [Joined, hphase] at h
      exact joined_proceed (s := { s with joinable := false }) rfl (eq_false_of_ne_true hreading)
        h.1 call
  · exact h

theorem Joined.readLoopEnds (h : s.Joined) (he : s.reading = true → s.phase ≠ .idle) :
    (s.step .readLoopEnds).1.Joined := by
  rw [step]
  split_ifs with hreading
  · obtain ⟨isConnected, joinable, reading, phase⟩ := s
    cases phase with
    | idle => exact absurd rfl (he hreading)
    | disconnecting call => exact ⟨rfl, h.2⟩
    | destroyed => exact ⟨h.1, rfl⟩
    | terminated => exact h
  · exact h

theorem Joined.step (h : s.Joined) {e : Event} (he : s.EndsInDisconnect e) :
    (s.step e).1.Joined := by
  cases e with
  | call call => exact h.call call
  | readLoopEnds => exact h.readLoopEnds he
  | joined => exact h.joined

theorem Joined.survives (h : s.Joined) : s.Survives := by
  refine ⟨fun call => (h.call call).not_terminated, fun hphase => ?_⟩
  obtain ⟨hjoinable, hreading⟩ := h.of_idle hphase
  obtain ⟨isConnected, joinable, reading, phase⟩ := s
  obtain rfl : phase = .idle := hphase
  obtain rfl : joinable = isConnected := hjoinable
  obtain rfl : reading = joinable := hreading
  cases reading <;> decide

theorem Joined.endsInDisconnect (h : s.Joined) {e : Event} (hs : (s.step e).1.Survives) :
    s.EndsInDisconnect e := by
  cases e with
  | readLoopEnds =>
    intro hreading hphase
    obtain ⟨hjoinable, hconnected⟩ := h.of_idle hphase
    obtain ⟨isConnected, joinable, reading, phase⟩ := s
    obtain rfl : reading = true := hreading
    obtain rfl : phase = .idle := hphase
    obtain rfl : true = isConnected := hconnected
    obtain rfl : joinable = true := hjoinable
    exact hs.not_terminated .destroy rfl
  | call | joined => trivial

/-- In a run from the construction on, the thread never ends by itself exactly when, at every point,
no call would find it joinable where it is assigned to or destroyed, and a call of `Connect` that
reaches the host succeeds. -/
theorem reconnecting_survives_iff (events : List Event) :
    Machine.Guarded step EndsInDisconnect {} events ↔
      ∀ pre, pre <+: events → (Machine.exec step {} pre).1.Survives := by
  refine Machine.guarded_iff_forall_reached (I := Joined) ?_ ?_ ?_ ?_ _
  · exact fun s e h he => h.step he
  · exact fun s h => h.survives
  · exact fun s e h hs => h.endsInDisconnect hs
  · exact ⟨rfl, rfl⟩

/-- A second connection, after the peer has closed the first. -/
theorem reconnect_terminates :
    (Machine.exec step {} [.call (.connect true), .readLoopEnds, .call (.connect true)]).1.phase =
      .terminated := by
  decide

end TcpControlClient

end VeyraCam
