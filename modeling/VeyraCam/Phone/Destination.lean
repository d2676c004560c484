import VeyraCam.Phone.UdpTransport

/-! # Where the media goes

The UDP socket is opened for a client when it has authenticated, and stays open
when it leaves. Media goes to the client of the moment in the runs in which
frames are only sent once that client's address has been set and before its
connection ends.
-/

namespace VeyraCam.Phone

variable {env : Android} {s : Phone}

/-- A datagram is sent while a client is authenticated and still there, and to its address. -/
def ToCurrentClient (env : Android) : PhoneOutput → Prop
  | .datagram d during => ∃ c ∈ during, c.authenticated = true ∧ c.stage ≠ .leaving ∧
    env.inetPton c.clientIp = some d.destination.address
  | _ => True

instance : (o : PhoneOutput) → Decidable (ToCurrentClient env o)
  | .datagram _ during => inferInstanceAs (Decidable (∃ c ∈ during, _))
  | .pinRequired _ | .message _ | .pairingFailed _ | .controlCommand _ _ => isTrue trivial

/-- The current client has authenticated, its address has been set, and its connection has
not ended. -/
def isServing (s : Phone) : Bool := s.connection.any fun c => c.authenticated && c.stage = .reading

/-- Frames are sent while a client is served or the socket is closed. -/
def SendsWhileServing (s : Phone) : PhoneEvent → Prop
  | .send _ => s.context.udpSocket = true → s.isServing = true
  | _ => True

instance : (e : PhoneEvent) → Decidable (SendsWhileServing s e)
  | .send _ => inferInstanceAs (Decidable (_ → _))
  | .accept _ _ _ | .line _ _ | .hangup | .proceed _ | .tick _ => isTrue trivial

/-- The invariant: an open socket is that of the client being served. -/
structure Addressed (env : Android) (s : Phone) : Prop where
  completing : ∀ c key, s.connection = some c → c.stage = .completing key →
    c.authenticated = false
  serving : ∀ c, s.connection = some c → c.authenticated = true → c.stage = .reading →
    s.context.udpSocket = true → env.inetPton c.clientIp = some s.context.udpAddr.address

theorem Addressed.manager (h : Addressed env s) (p : PairingManager) :
    Addressed env { s with pairingManager := p } :=
  ⟨h.completing, h.serving⟩

theorem addressed_of_not_serving {c : Connection} (hc : s.connection = some c)
    (hk : ∀ key, c.stage = .completing key → c.authenticated = false)
    (hs : c.authenticated = true → c.stage ≠ .reading) : Addressed env s := by
  constructor
  · intro c' key hc' hkey
    obtain rfl := Option.some.inj (hc.symm.trans hc')
    exact hk key hkey
  · intro c' hc' ha hr
    obtain rfl := Option.some.inj (hc.symm.trans hc')
    exact absurd hr (hs ha)

theorem Addressed.transition (h : Addressed env s) {e : PhoneEvent} {s' : Phone}
    {outputs : List PhoneOutput} (ht : Transition env s e s' outputs) : Addressed env s' := by
  cases ht with
  | idle | refuse | command => exact h
  | accept =>
    apply addressed_of_not_serving rfl
    · exact fun _ _ => rfl
    · exact fun ha => by cases ha
  | verify hr =>
    apply addressed_of_not_serving rfl
    · exact fun _ _ => hr.unauthenticated
    · exact fun _ hread => by cases hread
  | verifyWithoutKey | wrongPin | notAwaiting => exact h.manager _
  | lockedOut | hangup | complete =>
    apply addressed_of_not_serving rfl
    · exact fun _ hk => by cases hk
    · exact fun _ hread => by cases hread
  | failToComplete hc hcompleting =>
    apply addressed_of_not_serving rfl
    · exact fun _ hk => by cases hk
    · intro ha
      rw [h.completing _ _ hc hcompleting] at ha
      cases ha
  | @configure c socketOk hc _ =>
    constructor
    · rintro _ key ⟨⟩ hkey
      cases hkey
    · rintro _ ⟨⟩ _ _ hopen
      rcases s.context.configureUdp_cases env.inetPton c.clientIp udpMediaPort socketOk with
        hclosed | ⟨address, haddress, hset⟩
      · exact absurd (hclosed.symm.trans hopen) Bool.false_ne_true
      · exact haddress.trans (congrArg (some ·.address) hset).symm
  | leave => exact ⟨by simp, by simp⟩
  | send | tick => exact ⟨h.completing, h.serving⟩

theorem Addressed.toCurrentClient (h : Addressed env s) {e : PhoneEvent}
    (hg : SendsWhileServing s e) : ∀ o ∈ (s.step env e).2, ToCurrentClient env o := by
  intro o ho
  cases o with
  | datagram d during =>
    obtain ⟨call, rfl, hd, rfl⟩ := (transition_step s e).of_datagram ho
    obtain ⟨hopen, hdestination⟩ := NativeSenderContext.of_mem_send hd
    obtain ⟨c, hc, hserved⟩ := (Option.any_eq_true _ _).mp (hg hopen)
    obtain ⟨hauth, hreading⟩ := Bool.and_eq_true_iff.mp hserved
    have hreading : c.stage = .reading := of_decide_eq_true hreading
    refine ⟨c, hc, hauth, ?_, ?_⟩
    · rw [hreading]
      exact Stage.noConfusion
    · rw [hdestination]
      exact h.serving c hc hauth hreading hopen
  | _ => trivial

/-- In a run that sends while a client is served, media only goes to the client of the moment. -/
theorem toCurrentClient_of_sendsWhileServing {sessionId : UInt32} {events : List PhoneEvent}
    (h : Machine.Guarded (step env) SendsWhileServing (create sessionId) events) :
    ∀ o ∈ (Machine.exec (step env) (create sessionId) events).2, ToCurrentClient env o := by
  refine (h.invariant (I := Addressed env) (fun s e hs hg => ⟨?_, hs.toCurrentClient hg⟩) ?_).2
  · exact hs.transition (transition_step s e)
  · exact ⟨by simp [create], by simp [create]⟩

def sampleServing : List PhoneEvent :=
  sampleVisit "10.0.0.9" ["000000"] ++
    [.send (.audioFrame (.data [1, 2]) 5), .hangup, .proceed true]

set_option maxRecDepth 100000 in
theorem toCurrentClient_of_sendsWhileServing_sample :
    Machine.Guarded (step .sample) SendsWhileServing (create 7) sampleServing ∧
      ∀ o ∈ (Machine.exec (step .sample) (create 7) sampleServing).2,
        ToCurrentClient .sample o := by
  have h : Machine.Guarded (step .sample) SendsWhileServing (create 7) sampleServing := by decide
  exact ⟨h, toCurrentClient_of_sendsWhileServing h⟩

set_option maxRecDepth 100000 in
/-- A client that has left is still sent audio. -/
theorem not_toCurrentClient_after_hangup :
    ¬ ∀ o ∈ (Machine.exec (step .sample) (create 7) (sampleVisit "10.0.0.9" ["000000"] ++
      [.hangup, .proceed true, .send (.audioFrame (.data [1, 2]) 5)])).2,
        ToCurrentClient .sample o := by
  decide

end VeyraCam.Phone
