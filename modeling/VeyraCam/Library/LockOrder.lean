import Mathlib.Algebra.Order.BigOperators.Group.List
import Mathlib.Algebra.Order.Ring.Nat
import Mathlib.Logic.Relation

/-! # The order of locks

Threads hold locks for the extent of blocks, start other threads and wait for
their ends. Where every thread waits only for what ranks above all that it
holds, none waits forever: from each there is a chain of waits to a thread
that can move.
-/

namespace VeyraCam.LockOrder

variable {ρ : Type*}

/-- Code, as far as it waits for other threads. A resource is a lock, or a kind of threads, which
hold it until they end. -/
inductive Code (ρ : Type*) where
  | skip
  | seq (a b : Code ρ)
  | either (a b : Code ρ)
  | loop (a : Code ρ)
  /-- A block that holds the lock. -/
  | guarded (lock : ρ) (a : Code ρ)
  | spawn (kind : ρ)
  /-- The end of the threads of the kind is waited for. -/
  | join (kind : ρ)

namespace Code

def block (as : List (Code ρ)) : Code ρ := as.foldr seq skip

def oneOf (as : List (Code ρ)) : Code ρ := as.foldr either skip

def optional (a : Code ρ) : Code ρ := either skip a

def lock (l : ρ) : Code ρ := guarded l skip

/-- Whether the code waits only for what ranks above all that is held, which ranks up to `m`. -/
def ranked (rank : ρ → ℕ) : Code ρ → ℕ → Bool
  | skip, _ | spawn _, _ => true
  | seq a b, m | either a b, m => a.ranked rank m && b.ranked rank m
  | loop a, m => a.ranked rank m
  | guarded l a, m => decide (m < rank l) && a.ranked rank (rank l)
  | join kind, m => decide (m < rank kind)

end Code

inductive Frame (ρ : Type*) where
  | code (c : Code ρ)
  | unlock (lock : ρ)

structure Thread (ρ : Type*) where
  kind : ρ
  stack : List (Frame ρ)

def locks : List (Frame ρ) → List ρ
  | [] => []
  | .code _ :: k => locks k
  | .unlock l :: k => l :: locks k

/-- One step, with how a choice is made. -/
def next (choice : Bool) : List (Frame ρ) → List (Frame ρ)
  | [] => []
  | .unlock _ :: k | .code .skip :: k | .code (.spawn _) :: k | .code (.join _) :: k => k
  | .code (.seq a b) :: k => .code a :: .code b :: k
  | .code (.either a b) :: k => .code (if choice then a else b) :: k
  | .code (.loop a) :: k => if choice then .code a :: .code (.loop a) :: k else k
  | .code (.guarded l a) :: k => .code a :: .unlock l :: k

namespace Thread

def Ended (t : Thread ρ) : Prop := t.stack = []

def held (t : Thread ρ) : List ρ :=
  match t.stack with
  | [] => []
  | k => t.kind :: locks k

/-- What has to be free for the next step. -/
def awaits (t : Thread ρ) : Option ρ :=
  match t.stack with
  | .code (.guarded l _) :: _ => some l
  | .code (.join kind) :: _ => some kind
  | _ => none

def spawns (body : ρ → Code ρ) (t : Thread ρ) : Option (Thread ρ) :=
  match t.stack with
  | .code (.spawn kind) :: _ => some ⟨kind, [.code (body kind)]⟩
  | _ => none

end Thread

def Blocked (s : List (Thread ρ)) (t : Thread ρ) : Prop :=
  ∃ r ∈ t.awaits, ∃ u ∈ s, r ∈ u.held

instance [DecidableEq ρ] (s : List (Thread ρ)) (t : Thread ρ) : Decidable (Blocked s t) :=
  match h : t.awaits with
  | none => isFalse fun ⟨r, hr, _⟩ => by cases h.symm.trans hr
  | some r =>
    decidable_of_iff (s.any fun u => u.held.contains r) <| by
      simp [Blocked, h]

def WaitsFor (s : List (Thread ρ)) (t u : Thread ρ) : Prop := u ∈ s ∧ ∃ r ∈ t.awaits, r ∈ u.held

/-- From each thread that has not ended there is a chain of waits to one that can move. -/
def Live (s : List (Thread ρ)) : Prop :=
  ∀ t ∈ s, ¬ t.Ended → ∃ u ∈ s, Relation.ReflTransGen (WaitsFor s) t u ∧ ¬ u.Ended ∧ ¬ Blocked s u

/-! ## Ranks -/

variable (rank : ρ → ℕ)

def topRank (kind : ρ) : List (Frame ρ) → ℕ
  | [] => rank kind
  | .code _ :: k => topRank kind k
  | .unlock l :: _ => rank l

/-- The locks were taken in the order of ranks, and the rest of the code keeps to it. -/
def Ordered (kind : ρ) : List (Frame ρ) → Prop
  | [] => True
  | .code c :: k => c.ranked rank (topRank rank kind k) = true ∧ Ordered kind k
  | .unlock l :: k => topRank rank kind k < rank l ∧ Ordered kind k

variable {rank} {s : List (Thread ρ)} {t u : Thread ρ} {kind r : ρ} {k : List (Frame ρ)}

theorem rank_kind_le (h : Ordered rank kind k) : rank kind ≤ topRank rank kind k := by
  induction k with
  | nil => exact le_rfl
  | cons f k ih =>
    cases f with
    | code c => exact ih h.2
    | unlock l => exact (ih h.2).trans h.1.le

theorem rank_le_of_mem_locks (h : Ordered rank kind k) (hr : r ∈ locks k) :
    rank r ≤ topRank rank kind k := by
  induction k with
  | nil => cases hr
  | cons f k ih =>
    cases f with
    | code c => exact ih h.2 hr
    | unlock l =>
      rcases List.mem_cons.mp hr with rfl | hr
      · exact le_rfl
      · exact (ih h.2 hr).trans h.1.le

theorem Thread.not_ended_of_mem_held (hr : r ∈ t.held) : ¬ t.Ended := by
  intro hended
  unfold Thread.held at hr
  rw [hended] at hr
  cases hr

theorem rank_le_of_mem_held (h : Ordered rank t.kind t.stack) (hr : r ∈ t.held) :
    rank r ≤ topRank rank t.kind t.stack := by
  have hmem : r ∈ t.kind :: locks t.stack := by
    unfold Thread.held at hr
    split at hr
    · cases hr
    · exact hr
  rcases List.mem_cons.mp hmem with rfl | hr
  · exact rank_kind_le h
  · exact rank_le_of_mem_locks h hr

theorem topRank_lt_of_awaits (h : Ordered rank t.kind t.stack) (hr : r ∈ t.awaits) :
    topRank rank t.kind t.stack < rank r := by
  unfold Thread.awaits at hr
  split at hr
  · next l a k hstack =>
    obtain rfl := Option.some.inj hr
    rw [hstack] at h ⊢
    simp only [Ordered, Code.ranked, Bool.and_eq_true, decide_eq_true_eq] at h
    exact h.1.1
  · next kind k hstack =>
    obtain rfl := Option.some.inj hr
    rw [hstack] at h ⊢
    simp only [Ordered, Code.ranked, decide_eq_true_eq] at h
    exact h.1
  · cases hr

theorem ordered_next (h : Ordered rank kind k) (choice : Bool) :
    Ordered rank kind (next choice k) := by
  cases k with
  | nil => exact h
  | cons f k =>
    cases f with
    | unlock l => exact h.2
    | code c =>
      obtain ⟨hc, hk⟩ := h
      cases c with
      | skip | spawn | join => exact hk
      | seq a b =>
        simp only [Code.ranked, Bool.and_eq_true] at hc
        exact ⟨hc.1, hc.2, hk⟩
      | either a b =>
        simp only [Code.ranked, Bool.and_eq_true] at hc
        cases choice
        · exact ⟨hc.2, hk⟩
        · exact ⟨hc.1, hk⟩
      | loop a =>
        cases choice
        · exact hk
        · exact ⟨hc, hc, hk⟩
      | guarded l a =>
        simp only [Code.ranked, Bool.and_eq_true, decide_eq_true_eq] at hc
        exact ⟨hc.2, hc.1, hk⟩

/-- The rank grows along a chain of waits, which therefore ends. -/
theorem live_of_ordered (h : ∀ t ∈ s, Ordered rank t.kind t.stack) : Live s := by
  obtain ⟨bound, hbound⟩ : ∃ bound, ∀ t ∈ s, topRank rank t.kind t.stack ≤ bound := by
    refine ⟨(s.map fun t => topRank rank t.kind t.stack).sum, fun t ht => ?_⟩
    exact List.single_le_sum (fun _ _ => Nat.zero_le _) _ (List.mem_map_of_mem ht)
  intro t ht hended
  induction hgap : bound - topRank rank t.kind t.stack using Nat.strong_induction_on generalizing t
    with
  | _ gap ih =>
    by_cases hblocked : Blocked s t
    · obtain ⟨r, hr, u, hu, hheld⟩ := hblocked
      have hlt : topRank rank t.kind t.stack < topRank rank u.kind u.stack :=
        (topRank_lt_of_awaits (h t ht) hr).trans_le (rank_le_of_mem_held (h u hu) hheld)
      have hle := hbound u hu
      obtain ⟨v, hv, hchain, hmoves⟩ := ih _ (by omega) u hu
        (Thread.not_ended_of_mem_held hheld) rfl
      exact ⟨v, hv, .head ⟨hu, r, hr, hheld⟩ hchain, hmoves⟩
    · exact ⟨t, ht, .refl, hended, hblocked⟩

theorem Blocked.not_ended (h : Blocked s t) : ¬ t.Ended := by
  obtain ⟨r, hr, -⟩ := h
  intro hended
  unfold Thread.awaits at hr
  rw [hended] at hr
  cases hr

theorem not_live_of_forall_blocked (hs : s ≠ []) (h : ∀ t ∈ s, Blocked s t) : ¬ Live s := by
  intro hlive
  obtain ⟨t, ht⟩ := List.exists_mem_of_ne_nil s hs
  obtain ⟨u, hu, -, -, hfree⟩ := hlive t ht (h t ht).not_ended
  exact hfree (h u hu)

/-! ## Runs -/

variable [DecidableEq ρ] (body : ρ → Code ρ)

def step (s : List (Thread ρ)) (i : ℕ) (choice : Bool) : List (Thread ρ) :=
  match s[i]? with
  | none => s
  | some t =>
    if Blocked s t then s
    else s.set i { t with stack := next choice t.stack } ++ (t.spawns body).toList

def run (s : List (Thread ρ)) (moves : List (ℕ × Bool)) : List (Thread ρ) :=
  moves.foldl (fun s move => step body s move.1 move.2) s

variable {body}

/-- The order is kept by every step, when the code of the threads that are started keeps to it. -/
theorem ordered_step (hbody : ∀ kind, (body kind).ranked rank (rank kind) = true)
    (h : ∀ t ∈ s, Ordered rank t.kind t.stack) (i : ℕ) (choice : Bool) :
    ∀ t ∈ step body s i choice, Ordered rank t.kind t.stack := by
  unfold step
  split
  · exact h
  · next t ht =>
    split_ifs
    · exact h
    · intro u hu
      rcases List.mem_append.mp hu with hu | hu
      · rcases List.mem_or_eq_of_mem_set hu with hu | rfl
        · exact h u hu
        · exact ordered_next (h t (List.mem_of_getElem? ht)) choice
      · rw [Option.mem_toList] at hu
        unfold Thread.spawns at hu
        split at hu
        · obtain rfl := Option.some.inj hu
          exact ⟨hbody _, trivial⟩
        · cases hu

theorem ordered_run (hbody : ∀ kind, (body kind).ranked rank (rank kind) = true)
    (h : ∀ t ∈ s, Ordered rank t.kind t.stack) (moves : List (ℕ × Bool)) :
    ∀ t ∈ run body s moves, Ordered rank t.kind t.stack := by
  induction moves generalizing s with
  | nil => exact h
  | cons move moves ih => exact ih (ordered_step hbody h move.1 move.2)

end VeyraCam.LockOrder
