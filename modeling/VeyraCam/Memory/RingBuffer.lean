import Mathlib.Data.List.Forall2
import Mathlib.Data.Nat.Cast.Defs
import VeyraCam.Library.CircularWindow
import VeyraCam.Library.Machine

/-! # The ring buffer

`LockFreeRingBuffer`, called by one thread. One of its slots stays empty, which
tells a full buffer from an empty one. It refines a queue that discards its
oldest element when it is full.
-/

namespace VeyraCam

open CircularWindow

variable {T : Type*} {capacity : ℕ} [capacity.AtLeastTwo]

structure LockFreeRingBuffer (T : Type*) (capacity : ℕ) where
  buffer : Fin capacity → T
  head : Fin capacity
  tail : Fin capacity
  droppedCount : UInt64

/-- The two overloads of `Push`, and the other operations that change a buffer. -/
inductive RingCall (T : Type*) where
  | push (item : T)
  | pushMove (item : T)
  | pop
  | clear

inductive RingAnswer (T : Type*) where
  | pushed (returned : Bool) (argument : T)
  | popped (item : Option T)
  | cleared
  deriving DecidableEq

/-- A queue with the elements that were discarded from it. -/
structure DropOldestQueue (T : Type*) where
  items : List T := []
  discarded : List T := []
  deriving DecidableEq

namespace DropOldestQueue

variable (bound : ℕ)

def push (q : DropOldestQueue T) (item : T) : DropOldestQueue T :=
  if q.items.length = bound then
    ⟨q.items.drop 1 ++ [item], q.discarded ++ q.items.take 1⟩
  else ⟨q.items ++ [item], q.discarded⟩

/-- A call, where `moved` is what a move leaves behind. -/
def call (moved : T → T) (q : DropOldestQueue T) :
    RingCall T → DropOldestQueue T × List (RingAnswer T)
  | .push item => (q.push bound item, [.pushed true item])
  | .pushMove item => (q.push bound item, [.pushed true (moved item)])
  | .pop => (⟨q.items.drop 1, q.discarded⟩, [.popped q.items.head?])
  | .clear => (⟨[], q.discarded⟩, [.cleared])

end DropOldestQueue

namespace LockFreeRingBuffer

def next (index : Fin capacity) : Fin capacity := .ofNat capacity (index + 1)

def create [Inhabited T] : LockFreeRingBuffer T capacity := ⟨fun _ => default, 0, 0, 0⟩

def store (r : LockFreeRingBuffer T capacity) (item : T) : LockFreeRingBuffer T capacity :=
  let currentTail := r.tail
  let nextTail := next currentTail
  let r := if nextTail = r.head then
      { r with head := next r.head, droppedCount := r.droppedCount + 1 }
    else r
  { r with buffer := Function.update r.buffer currentTail item, tail := nextTail }

def push (r : LockFreeRingBuffer T capacity) (item : T) : LockFreeRingBuffer T capacity × Bool :=
  (r.store item, true)

def pushMove (r : LockFreeRingBuffer T capacity) (item : T) :
    LockFreeRingBuffer T capacity × Bool :=
  (r.store item, true)

/-- `LockFreeRingBuffer::Pop`. The item is moved out of its slot. -/
def pop (moved : T → T) (r : LockFreeRingBuffer T capacity) :
    LockFreeRingBuffer T capacity × Option T :=
  if r.head = r.tail then (r, none)
  else
    let item := r.buffer r.head
    ({ r with
        buffer := Function.update r.buffer r.head (moved item)
        head := next r.head }, some item)

def isEmpty (r : LockFreeRingBuffer T capacity) : Bool := r.head = r.tail

def size (r : LockFreeRingBuffer T capacity) : ℕ :=
  if r.head ≤ r.tail then r.tail - r.head else capacity - (r.head - r.tail)

def getDroppedCount (r : LockFreeRingBuffer T capacity) : UInt64 := r.droppedCount

def clear (r : LockFreeRingBuffer T capacity) : LockFreeRingBuffer T capacity :=
  { r with head := 0, tail := 0 }

def call (moved : T → T) (r : LockFreeRingBuffer T capacity) :
    RingCall T → LockFreeRingBuffer T capacity × List (RingAnswer T)
  | .push item => ((r.push item).1, [.pushed (r.push item).2 item])
  | .pushMove item => ((r.pushMove item).1, [.pushed (r.pushMove item).2 (moved item)])
  | .pop => ((r.pop moved).1, [.popped (r.pop moved).2])
  | .clear => (r.clear, [.cleared])

/-- What is in the buffer, the oldest first. -/
def contents (r : LockFreeRingBuffer T capacity) : List T := window r.buffer r.head r.size

variable {r : LockFreeRingBuffer T capacity} {H k : ℕ}

@[simp] theorem next_ofNat (k : ℕ) : next (.ofNat capacity k) = .ofNat capacity (k + 1) :=
  ofNat_val_add k 1

theorem size_eq (hhead : r.head = .ofNat capacity H) (htail : r.tail = .ofNat capacity (H + k))
    (hk : k < capacity) : r.size = k := by
  have hhead' : r.head.val = H % capacity := congrArg Fin.val hhead
  have htail' : r.tail.val = (H % capacity + k) % capacity := by
    rw [Nat.mod_add_mod]
    exact congrArg Fin.val htail
  have hlt : H % capacity < capacity := Nat.mod_lt _ (Nat.zero_lt_of_lt hk)
  simp only [size, Fin.le_def, hhead', htail']
  rcases Nat.lt_or_ge (H % capacity + k) capacity with hsum | hsum
  · rw [Nat.mod_eq_of_lt hsum, if_pos (Nat.le_add_right _ _), Nat.add_sub_cancel_left]
  · have hlt' : H % capacity + k - capacity < capacity := by omega
    rw [Nat.mod_eq_sub_mod hsum, Nat.mod_eq_of_lt hlt', if_neg (by omega)]
    omega

omit [capacity.AtLeastTwo] in
theorem size_lt (r : LockFreeRingBuffer T capacity) : r.size < capacity := by
  have hhead := r.head.isLt
  have htail := r.tail.isLt
  unfold size
  split_ifs with hle
  · omega
  · rw [Fin.le_def] at hle
    omega

theorem head_eq (r : LockFreeRingBuffer T capacity) : r.head = .ofNat capacity r.head :=
  Fin.ext (Nat.mod_eq_of_lt r.head.isLt).symm

theorem tail_eq (r : LockFreeRingBuffer T capacity) :
    r.tail = .ofNat capacity (r.head + r.size) := by
  have hhead := r.head.isLt
  have htail := r.tail.isLt
  apply Fin.ext
  change r.tail.val = (r.head.val + r.size) % capacity
  unfold size
  split_ifs with hle
  · rw [Fin.le_def] at hle
    rw [Nat.add_sub_cancel' hle, Nat.mod_eq_of_lt htail]
  · rw [Fin.le_def] at hle
    rw [show r.head.val + (capacity - (r.head - r.tail)) = r.tail + capacity by omega,
      Nat.add_mod_right, Nat.mod_eq_of_lt htail]

@[simp] theorem length_contents (r : LockFreeRingBuffer T capacity) :
    r.contents.length = r.size :=
  length_window ..

theorem contents_eq (hhead : r.head = .ofNat capacity H)
    (htail : r.tail = .ofNat capacity (H + k)) (hk : k < capacity) :
    r.contents = window r.buffer H k := by
  rw [contents, size_eq hhead htail hk, hhead, window_ofNat]

theorem contents_of_zero (hhead : r.head = 0) (htail : r.tail = 0) : r.contents = [] :=
  contents_eq (H := 0) (k := 0) hhead htail (Nat.pos_of_neZero capacity)

theorem head_eq_tail_iff (r : LockFreeRingBuffer T capacity) : r.head = r.tail ↔ r.size = 0 := by
  have hpos : 0 < capacity := Nat.zero_lt_of_lt r.size_lt
  have hiff : Fin.ofNat capacity (r.head + 0) = .ofNat capacity (r.head + r.size) ↔ 0 = r.size :=
    ofNat_add_inj hpos r.size_lt
  rw [← tail_eq, Nat.add_zero, ← head_eq] at hiff
  rw [hiff, eq_comm]

theorem isEmpty_eq (r : LockFreeRingBuffer T capacity) : r.isEmpty = r.contents.isEmpty := by
  rw [isEmpty, Bool.eq_iff_iff, decide_eq_true_iff, head_eq_tail_iff, List.isEmpty_iff,
    ← List.length_eq_zero_iff, length_contents]

theorem next_tail (r : LockFreeRingBuffer T capacity) :
    next r.tail = .ofNat capacity (r.head + (r.size + 1)) := by
  rw [tail_eq, next_ofNat, Nat.add_assoc]

theorem next_tail_eq_head_iff (r : LockFreeRingBuffer T capacity) :
    next r.tail = r.head ↔ r.size + 1 = capacity := by
  have hlt := r.size_lt
  constructor
  · intro h
    by_contra hne
    rw [next_tail, head_eq, ofNat_val_add] at h
    have hzero := (ofNat_add_inj (i := r.size + 1) (j := 0) (by omega) (by omega)).mp h
    cases hzero
  · intro h
    rw [next_tail, h]
    exact (ofNat_congr (Nat.add_mod_right _ _)).trans r.head_eq.symm

theorem store_of_room (h : r.size + 1 ≠ capacity) (item : T) :
    r.store item =
      { r with buffer := Function.update r.buffer r.tail item, tail := next r.tail } := by
  rw [store, if_neg (r.next_tail_eq_head_iff.not.mpr h)]

theorem store_of_full (h : r.size + 1 = capacity) (item : T) :
    r.store item =
      { buffer := Function.update r.buffer r.tail item
        head := next r.head
        tail := next r.tail
        droppedCount := r.droppedCount + 1 } := by
  rw [store, if_pos (r.next_tail_eq_head_iff.mpr h)]

theorem contents_store_of_room (h : r.size + 1 ≠ capacity) (item : T) :
    (r.store item).contents = r.contents ++ [item] := by
  have hlt : r.size + 1 < capacity := Nat.lt_of_le_of_ne r.size_lt h
  have hstore := store_of_room h item
  have hhead : (r.store item).head = .ofNat capacity r.head := by rw [hstore]; exact r.head_eq
  have htail : (r.store item).tail = .ofNat capacity (r.head + (r.size + 1)) := by
    rw [hstore]; exact r.next_tail
  rw [contents_eq hhead htail hlt, hstore]
  dsimp only
  rw [tail_eq, window_update_concat r.size_lt]
  rfl

theorem contents_store_of_full (h : r.size + 1 = capacity) (item : T) :
    (r.store item).contents = r.contents.drop 1 ++ [item] := by
  have htwo : 2 ≤ capacity := Nat.AtLeastTwo.prop
  obtain ⟨k, hk⟩ : ∃ k, r.size = k + 1 := ⟨r.size - 1, by omega⟩
  have hlt : k + 1 < capacity := by omega
  have hstore := store_of_full h item
  have hhead : (r.store item).head = .ofNat capacity (r.head + 1) := by rw [hstore]; rfl
  have htail : (r.store item).tail = .ofNat capacity (r.head + 1 + (k + 1)) := by
    rw [hstore, Nat.add_assoc, Nat.add_comm 1, ← hk]; exact r.next_tail
  have hwritten : r.tail = .ofNat capacity (r.head + 1 + k) := by
    rw [Nat.add_assoc, Nat.add_comm 1, ← hk]; exact r.tail_eq
  rw [contents_eq hhead htail hlt, hstore]
  dsimp only
  rw [hwritten, window_update_concat (Nat.lt_of_succ_lt hlt), contents, hk, window_succ]
  rfl

theorem pop_of_empty (h : r.contents = []) (moved : T → T) : r.pop moved = (r, none) := by
  have hsize : r.size = 0 := by rw [← length_contents, h, List.length_nil]
  exact if_pos (r.head_eq_tail_iff.mpr hsize)

theorem pop_of_cons {item : T} {rest : List T} (h : r.contents = item :: rest) (moved : T → T) :
    (r.pop moved).1.contents = rest ∧ (r.pop moved).1.droppedCount = r.droppedCount ∧
      (r.pop moved).2 = some item := by
  have hk : r.size = rest.length + 1 := by rw [← length_contents, h, List.length_cons]
  have hsize := r.size_lt
  have hlt : rest.length < capacity := by omega
  have hne : ¬ r.head = r.tail := by rw [head_eq_tail_iff, hk]; exact Nat.succ_ne_zero _
  have hpop : r.pop moved =
      ({ r with
          buffer := Function.update r.buffer r.head (moved (r.buffer r.head))
          head := next r.head }, some (r.buffer r.head)) := if_neg hne
  rw [contents, hk, window_succ, ← head_eq, List.cons.injEq] at h
  have hhead : (r.pop moved).1.head = .ofNat capacity (r.head + 1) := by rw [hpop]; rfl
  have htail : (r.pop moved).1.tail = .ofNat capacity (r.head + 1 + rest.length) := by
    rw [hpop, Nat.add_assoc, Nat.add_comm 1, ← hk]; exact r.tail_eq
  rw [contents_eq hhead htail hlt, hpop]
  refine ⟨?_, rfl, congrArg some h.1⟩
  dsimp only
  nth_rewrite 1 [head_eq]
  exact (window_update_before hlt _).trans h.2

def Refines (r : LockFreeRingBuffer T capacity) (q : DropOldestQueue T) : Prop :=
  r.contents = q.items ∧ r.droppedCount = .ofNat q.discarded.length

theorem Refines.store {q : DropOldestQueue T} (h : r.Refines q) (item : T) :
    (r.store item).Refines (q.push (capacity - 1) item) := by
  have hsize : q.items.length = r.size := by rw [← h.1, length_contents]
  have hlt := r.size_lt
  rw [DropOldestQueue.push, hsize]
  split_ifs with hfull
  · have hfull : r.size + 1 = capacity := by omega
    constructor
    · rw [contents_store_of_full hfull, h.1]
    · have htake : (q.items.take 1).length = 1 := by
        have htwo : 2 ≤ capacity := Nat.AtLeastTwo.prop
        rw [List.length_take, hsize]
        omega
      rw [store_of_full hfull, List.length_append, htake, UInt64.ofNat_add, ← h.2]
      rfl
  · have hroom : r.size + 1 ≠ capacity := by omega
    constructor
    · rw [contents_store_of_room hroom, h.1]
    · rw [store_of_room hroom, ← h.2]

theorem Refines.call {q : DropOldestQueue T} (h : r.Refines q) (moved : T → T) (c : RingCall T) :
    (r.call moved c).1.Refines (q.call (capacity - 1) moved c).1 ∧
      (r.call moved c).2 = (q.call (capacity - 1) moved c).2 := by
  cases c with
  | push item => exact ⟨h.store item, rfl⟩
  | pushMove item => exact ⟨h.store item, rfl⟩
  | pop =>
    rw [LockFreeRingBuffer.call, DropOldestQueue.call]
    cases hitems : q.items with
    | nil =>
      rw [pop_of_empty (h.1.trans hitems)]
      exact ⟨⟨h.1.trans hitems, h.2⟩, rfl⟩
    | cons item rest =>
      obtain ⟨hcontents, hdropped, hitem⟩ := pop_of_cons (h.1.trans hitems) moved
      rw [hitem]
      exact ⟨⟨hcontents, hdropped.trans h.2⟩, rfl⟩
  | clear => exact ⟨⟨contents_of_zero rfl rfl, h.2⟩, rfl⟩

/-- In every run of calls the buffer answers as a queue of at most `capacity - 1` elements that
discards its oldest one when it is full, and it counts what that queue discards. -/
theorem refines_dropOldestQueue [Inhabited T] (moved : T → T) (calls : List (RingCall T)) :
    let r := Machine.exec (call moved) (create : LockFreeRingBuffer T capacity) calls
    let q := Machine.exec (DropOldestQueue.call (capacity - 1) moved) {} calls
    r.2 = q.2 ∧ q.1.items.length ≤ capacity - 1 ∧ r.1.size = q.1.items.length ∧
      r.1.isEmpty = q.1.items.isEmpty ∧ r.1.getDroppedCount = .ofNat q.1.discarded.length := by
  intro r q
  have hinit : (create : LockFreeRingBuffer T capacity).Refines {} :=
    ⟨contents_of_zero rfl rfl, rfl⟩
  have hstep (r : LockFreeRingBuffer T capacity) (q : DropOldestQueue T) (c d : RingCall T)
      (h : r.Refines q) (hcd : c = d) :
      (r.call moved c).1.Refines (q.call (capacity - 1) moved d).1 ∧
        (r.call moved c).2 = (q.call (capacity - 1) moved d).2 := hcd ▸ h.call moved c
  obtain ⟨⟨hcontents, hdropped⟩, hanswers⟩ :=
    Machine.exec_related hstep hinit (List.forall₂_same.mpr fun c _ => Eq.refl c)
  have hsize : r.1.size = q.1.items.length := by rw [← length_contents, hcontents]
  refine ⟨hanswers, ?_, hsize, ?_, hdropped⟩
  · rw [← hsize]
    exact Nat.le_sub_one_of_lt r.1.size_lt
  · rw [isEmpty_eq, hcontents]

/-- Two elements too many for five slots. -/
theorem getDroppedCount_after_overflow :
    let calls := [.push 1, .push 2, .push 3, .pop, .pop, .push 10, .pushMove 20, .push 30,
      .push 40, .push 50]
    let r := Machine.exec (call id) (create : LockFreeRingBuffer ℕ 5) calls
    r.1.size = 4 ∧ r.1.getDroppedCount = 2 := by
  intro calls r
  obtain ⟨-, -, hsize, -, hdropped⟩ := @refines_dropOldestQueue ℕ 5 _ _ id calls
  exact ⟨hsize.trans (by decide), hdropped.trans (by decide)⟩

end LockFreeRingBuffer

end VeyraCam
