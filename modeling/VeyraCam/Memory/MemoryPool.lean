import Mathlib.Data.List.Nodup
import Mathlib.Data.List.ReduceOption
import VeyraCam.Library.Machine
import VeyraCam.Protocol.Bytes

/-! # The memory pool

`MemoryPool` hands out its blocks and takes back what it is given. As long as
its callers only give back what they hold, a block is free or has one holder,
who alone changes it. The first pointer given back by somebody who does not
hold it is one that the pool goes on to hand out, held or not, its own or not.
-/

namespace VeyraCam

structure MemoryBlock where
  data : FixedBytes 2048 := .replicate 2048 0
  size : ℕ := 0

/-- `MemoryPool`, with the pointers that are out. A pointer is a number, and those below the size
of the pool point into `storage_`. -/
structure MemoryPool where
  memory : ℕ → MemoryBlock := fun _ => {}
  /-- `freeList_`, from its back on. -/
  freeList : List ℕ
  held : List ℕ := []

/-- A call on a pool, or a write of a caller through a pointer. -/
inductive PoolCall where
  | acquire
  | release (block : Option ℕ)
  | write (block : ℕ) (contents : MemoryBlock)

namespace MemoryPool

def create (poolSize : ℕ) : MemoryPool where freeList := (List.range poolSize).reverse

def acquire (s : MemoryPool) : MemoryPool × Option ℕ :=
  match s.freeList with
  | [] => (s, none)
  | block :: freeList =>
    ({ memory := Function.update s.memory block { s.memory block with size := 0 }
       freeList
       held := block :: s.held }, some block)

def release (s : MemoryPool) : Option ℕ → MemoryPool
  | none => s
  | some block => { s with freeList := block :: s.freeList, held := s.held.erase block }

def step (s : MemoryPool) : PoolCall → MemoryPool × List (Option ℕ)
  | .acquire => (s.acquire.1, [s.acquire.2])
  | .release block => (s.release block, [])
  | .write block contents => ({ s with memory := Function.update s.memory block contents }, [])

/-- What is given back is held by somebody. -/
def Owns (s : MemoryPool) : PoolCall → Prop
  | .release (some block) => block ∈ s.held
  | _ => True

/-- The pointers that a number of calls of `Acquire` in a row return. -/
def handedOut (s : MemoryPool) (n : ℕ) : List ℕ :=
  (Machine.exec step s (List.replicate n .acquire)).2.reduceOption

/-- However many blocks are asked for, no pointer gets a second holder, and all point into
`storage_`. -/
def Exclusive (poolSize : ℕ) (s : MemoryPool) : Prop :=
  ∀ n, (s.handedOut n ++ s.held).Nodup ∧ ∀ block ∈ s.handedOut n ++ s.held, block < poolSize

def Accounts (poolSize : ℕ) (s : MemoryPool) : Prop :=
  (s.freeList ++ s.held).Perm (List.range poolSize)

variable {poolSize : ℕ} {s : MemoryPool} {c : PoolCall} {calls : List PoolCall} {block : ℕ}

theorem acquire_of_nil (h : s.freeList = []) : s.acquire = (s, none) := by
  simp only [acquire, h]

theorem acquire_of_cons {freeList : List ℕ} (h : s.freeList = block :: freeList) :
    s.acquire =
      ({ memory := Function.update s.memory block { s.memory block with size := 0 }
         freeList
         held := block :: s.held }, some block) := by
  simp only [acquire, h]

theorem handedOut_eq (s : MemoryPool) (n : ℕ) : s.handedOut n = s.freeList.take n := by
  induction n generalizing s with
  | zero => rfl
  | succ n ih =>
    have hsucc : s.handedOut (n + 1) = [s.acquire.2].reduceOption ++ s.acquire.1.handedOut n := by
      simp only [handedOut, List.replicate_succ, Machine.exec_cons, List.reduceOption_append, step]
    rw [hsucc, ih]
    cases hfree : s.freeList with
    | nil => simp [acquire_of_nil hfree, hfree]
    | cons block freeList => simp [acquire_of_cons hfree]

theorem exclusive_iff :
    s.Exclusive poolSize ↔
      (s.freeList ++ s.held).Nodup ∧ ∀ block ∈ s.freeList ++ s.held, block < poolSize := by
  constructor
  · intro h
    have hall := h s.freeList.length
    rwa [handedOut_eq, List.take_length] at hall
  · rintro ⟨hnodup, hlt⟩ n
    have hsub : (s.freeList.take n ++ s.held).Sublist (s.freeList ++ s.held) :=
      (List.take_sublist n s.freeList).append_right s.held
    rw [handedOut_eq]
    exact ⟨hnodup.sublist hsub, fun block hblock => hlt block (hsub.subset hblock)⟩

theorem accounts_create (poolSize : ℕ) : (create poolSize).Accounts poolSize := by
  change ((List.range poolSize).reverse ++ []).Perm (List.range poolSize)
  rw [List.append_nil]
  exact List.reverse_perm (List.range poolSize)

namespace Accounts

theorem exclusive (h : s.Accounts poolSize) : s.Exclusive poolSize :=
  exclusive_iff.mpr ⟨h.nodup_iff.mpr List.nodup_range, fun _ hblock =>
    List.mem_range.mp (h.mem_iff.mp hblock)⟩

theorem acquire (h : s.Accounts poolSize) : s.acquire.1.Accounts poolSize := by
  cases hfree : s.freeList with
  | nil => rwa [acquire_of_nil hfree]
  | cons block freeList =>
    rw [acquire_of_cons hfree]
    rw [Accounts, hfree] at h
    exact List.perm_middle.trans h

theorem release (h : s.Accounts poolSize) (hblock : block ∈ s.held) :
    (s.release (some block)).Accounts poolSize := by
  have hheld := (List.perm_cons_erase hblock).append_left s.freeList
  exact (List.perm_middle.symm.trans hheld.symm).trans h

theorem step (h : s.Accounts poolSize) (howns : Owns s c) :
    (step s c).1.Accounts poolSize := by
  cases c with
  | acquire => exact h.acquire
  | release block =>
    cases block with
    | none => exact h
    | some block => exact h.release howns
  | write => exact h

theorem acquire_eq_none_iff (h : s.Accounts poolSize) :
    s.acquire.2 = none ↔ s.held.length = poolSize := by
  have hlength := h.length_eq
  rw [List.length_append, List.length_range] at hlength
  cases hfree : s.freeList with
  | nil =>
    rw [hfree, List.length_nil, Nat.zero_add] at hlength
    exact iff_of_true (by rw [acquire_of_nil hfree]) hlength
  | cons first freeList =>
    rw [hfree, List.length_cons] at hlength
    exact iff_of_false (by simp [acquire_of_cons hfree]) (by omega)

theorem of_acquire_eq_some (h : s.Accounts poolSize) (hblock : s.acquire.2 = some block) :
    block < poolSize ∧ block ∉ s.held ∧ (s.acquire.1.memory block).size = 0 := by
  cases hfree : s.freeList with
  | nil =>
    rw [acquire_of_nil hfree] at hblock
    cases hblock
  | cons first freeList =>
    rw [acquire_of_cons hfree] at hblock ⊢
    obtain rfl := Option.some.inj hblock
    have hnodup := h.nodup_iff.mpr List.nodup_range
    rw [hfree] at hnodup
    have hmem : first ∈ s.freeList ++ s.held := by simp [hfree]
    refine ⟨List.mem_range.mp (h.mem_iff.mp hmem), fun hheld => ?_, by simp⟩
    exact (List.nodup_cons.mp hnodup).1 (List.mem_append_right _ hheld)

theorem exec (h : Machine.Guarded MemoryPool.step Owns (create poolSize) calls) :
    (Machine.exec MemoryPool.step (create poolSize) calls).1.Accounts poolSize :=
  (h.invariant (P := fun _ => True) (fun _ _ h howns => ⟨h.step howns, fun _ _ => trivial⟩)
    (accounts_create poolSize)).1

end Accounts

/-- A block given back twice is handed out twice. -/
example : ((create 2).step .acquire).2 = [some 1] ∧
    (Machine.exec step (create 2) [.acquire, .release (some 1), .release (some 1)]).1.handedOut 2 =
      [1, 1] := by
  decide

/-- What others do leaves a block alone while it is held. -/
theorem memory_step (h : s.Accounts poolSize) (hblock : block ∈ s.held)
    (hrelease : c ≠ .release (some block)) (hwrite : ∀ contents, c ≠ .write block contents) :
    (step s c).1.memory block = s.memory block ∧ block ∈ (step s c).1.held := by
  cases c with
  | acquire =>
    cases hfree : s.freeList with
    | nil =>
      rw [step, acquire_of_nil hfree]
      exact ⟨rfl, hblock⟩
    | cons first freeList =>
      have hne : block ≠ first := by
        rintro rfl
        have hnodup := h.nodup_iff.mpr List.nodup_range
        rw [hfree] at hnodup
        exact (List.nodup_cons.mp hnodup).1 (List.mem_append_right _ hblock)
      rw [step, acquire_of_cons hfree]
      exact ⟨Function.update_of_ne hne _ _, List.mem_cons_of_mem _ hblock⟩
  | release other =>
    cases other with
    | none => exact ⟨rfl, hblock⟩
    | some other =>
      refine ⟨rfl, (List.mem_erase_of_ne ?_).mpr hblock⟩
      rintro rfl
      exact hrelease rfl
  | write other contents =>
    refine ⟨Function.update_of_ne ?_ _ _, hblock⟩
    rintro rfl
    exact hwrite contents rfl

theorem memory_exec (h : s.Accounts poolSize) (hg : Machine.Guarded step Owns s calls)
    (hblock : block ∈ s.held)
    (hcalls : ∀ c ∈ calls, c ≠ .release (some block) ∧ ∀ contents, c ≠ .write block contents) :
    (Machine.exec step s calls).1.memory block = s.memory block := by
  refine ((hg.and (Machine.guarded_of_forall hcalls _)).invariant
    (I := fun t => t.Accounts poolSize ∧ block ∈ t.held ∧ t.memory block = s.memory block)
    (P := fun _ => True) ?_ ⟨h, hblock, rfl⟩).1.2.2
  rintro t c ⟨haccounts, hheld, hmemory⟩ ⟨howns, hrelease, hwrite⟩
  obtain ⟨hsame, hheld'⟩ := memory_step haccounts hheld hrelease hwrite
  exact ⟨⟨haccounts.step howns, hheld', hsame.trans hmemory⟩, fun _ _ => trivial⟩

/-- As long as only held blocks are given back: `Acquire` returns null exactly when all blocks are
held, and otherwise an empty block that nobody holds; and a block keeps what its holder wrote into
it, whatever others do with theirs. -/
theorem serves (hg : Machine.Guarded step Owns (create poolSize) calls) :
    let s := (Machine.exec step (create poolSize) calls).1
    (s.acquire.2 = none ↔ s.held.length = poolSize) ∧
      (∀ block, s.acquire.2 = some block →
        block < poolSize ∧ block ∉ s.held ∧ (s.acquire.1.memory block).size = 0) ∧
      ∀ pre more, calls = pre ++ more → ∀ block,
        block ∈ (Machine.exec step (create poolSize) pre).1.held →
        (∀ c ∈ more, c ≠ .release (some block) ∧ ∀ contents, c ≠ .write block contents) →
          s.memory block = (Machine.exec step (create poolSize) pre).1.memory block := by
  intro s
  have haccounts : s.Accounts poolSize := Accounts.exec hg
  refine ⟨haccounts.acquire_eq_none_iff, fun block => haccounts.of_acquire_eq_some, ?_⟩
  rintro pre more rfl block hblock hmore
  obtain ⟨hpre, hrest⟩ := Machine.guarded_append.mp hg
  have hs : s = (Machine.exec step (Machine.exec step (create poolSize) pre).1 more).1 := by
    change (Machine.exec step (create poolSize) (pre ++ more)).1 = _
    rw [Machine.exec_append]
  rw [hs]
  exact memory_exec (Accounts.exec hpre) hrest hblock hmore

theorem serves_sample :
    (Machine.exec step (create 2) [.acquire, .release (some 1), .acquire, .acquire]).1.acquire.2 =
      none := by
  have hg : Machine.Guarded step Owns (create 2)
      [.acquire, .release (some 1), .acquire, .acquire] :=
    ⟨trivial, List.mem_singleton_self 1, trivial, trivial, trivial⟩
  exact (serves hg).1.mpr rfl

end MemoryPool

end VeyraCam
