import Mathlib.Data.List.Perm.Basic
import VeyraCam.Memory.RingBuffer

/-! # One producer and one consumer

The atomic steps of a thread that calls `Push` and of one that calls `Pop`, in
any order. On overflow both threads store the head, each from what it loaded
before. What the other thread has stored in between is lost: an element is
popped twice, or the head goes past elements that nobody took.
-/

namespace VeyraCam

open CircularWindow

variable {T : Type*} {capacity : ℕ} [capacity.AtLeastTwo]

/-- Where a `Push` is, with what it has loaded. -/
inductive PushStage (T : Type*) (capacity : ℕ) where
  | idle
  | loadedTail (item : T) (currentTail : Fin capacity)
  | loadedHead (item : T) (currentTail currentHead : Fin capacity)
  | storedHead (item : T) (currentTail : Fin capacity)
  | countedDrop (item : T) (currentTail : Fin capacity)
  | wroteSlot (item : T) (currentTail : Fin capacity)
  deriving DecidableEq

/-- Where a `Pop` is. Past the load of the tail it has found an element. -/
inductive PopStage (T : Type*) (capacity : ℕ) where
  | idle
  | loadedHead (currentHead : Fin capacity)
  | loadedTail (currentHead : Fin capacity)
  | readSlot (currentHead : Fin capacity) (item : T)
  deriving DecidableEq

/-- The next operation of a `Push` stores the head: it has found the buffer full. -/
def PushStage.StoresHead : PushStage T capacity → Prop
  | .loadedHead _ currentTail currentHead => LockFreeRingBuffer.next currentTail = currentHead
  | _ => False

instance : DecidablePred (@PushStage.StoresHead T capacity _)
  | .loadedHead _ currentTail currentHead =>
    inferInstanceAs (Decidable (LockFreeRingBuffer.next currentTail = currentHead))
  | .idle | .loadedTail .. | .storedHead .. | .countedDrop .. | .wroteSlot .. =>
    inferInstanceAs (Decidable False)

def PopStage.StoresHead : PopStage T capacity → Prop
  | .readSlot .. => True
  | _ => False

instance : DecidablePred (@PopStage.StoresHead T capacity)
  | .readSlot .. => inferInstanceAs (Decidable True)
  | .idle | .loadedHead _ | .loadedTail _ => inferInstanceAs (Decidable False)

/-- The buffer and its two threads. The last four fields are a history that no step reads: the
values pushed and popped, and for each thread whether the other one has stored the head since
it loaded it. -/
structure RingThreads (T : Type*) (capacity : ℕ) where
  ring : LockFreeRingBuffer T capacity
  producer : PushStage T capacity := .idle
  consumer : PopStage T capacity := .idle
  pushed : List T := []
  popped : List T := []
  producerOvertaken : Bool := false
  consumerOvertaken : Bool := false

inductive RingStep (T : Type*) where
  | push (item : T)
  | producer
  | consumer

namespace RingThreads

def create [Inhabited T] : RingThreads T capacity := { ring := .create }

def writeSlot (s : RingThreads T capacity) (item : T) (currentTail : Fin capacity) :
    RingThreads T capacity :=
  { s with
    ring := { s.ring with buffer := Function.update s.ring.buffer currentTail item }
    producer := .wroteSlot item currentTail }

def producerStep (s : RingThreads T capacity) : RingThreads T capacity :=
  match s.producer with
  | .idle => s
  | .loadedTail item currentTail =>
    { s with
      producer := .loadedHead item currentTail s.ring.head
      producerOvertaken := false }
  | .loadedHead item currentTail currentHead =>
    if LockFreeRingBuffer.next currentTail = currentHead then
      { s with
        ring := { s.ring with head := LockFreeRingBuffer.next currentHead }
        producer := .storedHead item currentTail
        consumerOvertaken := true }
    else s.writeSlot item currentTail
  | .storedHead item currentTail =>
    { s with
      ring := { s.ring with droppedCount := s.ring.droppedCount + 1 }
      producer := .countedDrop item currentTail }
  | .countedDrop item currentTail => s.writeSlot item currentTail
  | .wroteSlot item currentTail =>
    { s with
      ring := { s.ring with tail := LockFreeRingBuffer.next currentTail }
      producer := .idle
      pushed := s.pushed ++ [item] }

/-- The next operation of a `Pop`, with what the call returns if it ends with it. -/
def consumerStep (moved : T → T) (s : RingThreads T capacity) :
    RingThreads T capacity × List (Option T) :=
  match s.consumer with
  | .idle => ({ s with consumer := .loadedHead s.ring.head, consumerOvertaken := false }, [])
  | .loadedHead currentHead =>
    if currentHead = s.ring.tail then ({ s with consumer := .idle }, [none])
    else ({ s with consumer := .loadedTail currentHead }, [])
  | .loadedTail currentHead =>
    let item := s.ring.buffer currentHead
    ({ s with
        ring := { s.ring with
          buffer := Function.update s.ring.buffer currentHead (moved item) }
        consumer := .readSlot currentHead item }, [])
  | .readSlot currentHead item =>
    ({ s with
        ring := { s.ring with head := LockFreeRingBuffer.next currentHead }
        consumer := .idle
        popped := s.popped ++ [item]
        producerOvertaken := true }, [some item])

def step (moved : T → T) (s : RingThreads T capacity) :
    RingStep T → RingThreads T capacity × List (Option T)
  | .push item =>
    match s.producer with
    | .idle => ({ s with producer := .loadedTail item s.ring.tail }, [])
    | _ => (s, [])
  | .producer => (s.producerStep, [])
  | .consumer => s.consumerStep moved

theorem exec_push (moved : T → T) {s : RingThreads T capacity} (h : s.producer = .idle)
    (item : T) :
    (Machine.exec (step moved) s (.push item :: List.replicate 5 .producer)).1.ring =
      (s.ring.push item).1 := by
  by_cases hfull : LockFreeRingBuffer.next s.ring.tail = s.ring.head
  · simp [step, producerStep, writeSlot, LockFreeRingBuffer.push, LockFreeRingBuffer.store, h,
      hfull]
  · simp [step, producerStep, writeSlot, LockFreeRingBuffer.push, LockFreeRingBuffer.store, h,
      hfull]

theorem exec_pop (moved : T → T) {s : RingThreads T capacity} (h : s.consumer = .idle) :
    let r := Machine.exec (step moved) s
      (List.replicate (if s.ring.isEmpty then 2 else 4) .consumer)
    r.1.ring = (s.ring.pop moved).1 ∧ r.2 = [(s.ring.pop moved).2] := by
  by_cases hempty : s.ring.head = s.ring.tail
  · simp [step, consumerStep, LockFreeRingBuffer.isEmpty, LockFreeRingBuffer.pop, h, hempty]
  · simp [step, consumerStep, LockFreeRingBuffer.isEmpty, LockFreeRingBuffer.pop, h, hempty]

/-- The values popped are a subsequence of the values pushed, and when both threads are idle each
value pushed has been popped, is in the buffer or is counted as dropped. -/
def Accounted (s : RingThreads T capacity) : Prop :=
  s.popped.Sublist s.pushed ∧ (s.producer = .idle → s.consumer = .idle →
    ∃ dropped, s.pushed.Perm (s.popped ++ dropped ++ s.ring.contents) ∧
      s.ring.getDroppedCount = .ofNat dropped.length)

/-- A thread stores the head only if the other one has not stored it since it was loaded. -/
def StoresLoadedHead (s : RingThreads T capacity) : RingStep T → Prop
  | .push _ => True
  | .producer => s.producer.StoresHead → s.producerOvertaken = false
  | .consumer => s.consumer.StoresHead → s.consumerOvertaken = false

instance (s : RingThreads T capacity) : DecidablePred s.StoresLoadedHead
  | .push _ => inferInstanceAs (Decidable True)
  | .producer => inferInstanceAs (Decidable (_ → _))
  | .consumer => inferInstanceAs (Decidable (_ → _))

/-- A `Pop` that has found an element has been overtaken; it cannot store the head any more. -/
def Stuck (s : RingThreads T capacity) : Prop :=
  s.consumerOvertaken = true ∧
    ((∃ currentHead, s.consumer = .loadedTail currentHead) ∨
      ∃ currentHead item, s.consumer = .readSlot currentHead item)

/-- Drops that `droppedCount_` does not show yet. -/
def uncounted : PushStage T capacity → UInt64
  | .storedHead .. => 1
  | _ => 0

/-- What a `Push` knows, where `gone` values have left the buffer and `size` are in it. -/
inductive ProducerAt (buffer : Fin capacity → T) (overtaken : Bool) (gone size : ℕ) :
    PushStage T capacity → Prop
  | idle : ProducerAt buffer overtaken gone size .idle
  | loadedTail (item : T) :
      ProducerAt buffer overtaken gone size (.loadedTail item (.ofNat capacity (gone + size)))
  | loadedHead (item : T) {loaded : ℕ} (le : loaded ≤ gone)
      (room : gone + size < loaded + capacity) (fresh : overtaken = false → loaded = gone) :
      ProducerAt buffer overtaken gone size
        (.loadedHead item (.ofNat capacity (gone + size)) (.ofNat capacity loaded))
  | storedHead (item : T) (room : size + 1 < capacity) :
      ProducerAt buffer overtaken gone size (.storedHead item (.ofNat capacity (gone + size)))
  | countedDrop (item : T) (room : size + 1 < capacity) :
      ProducerAt buffer overtaken gone size (.countedDrop item (.ofNat capacity (gone + size)))
  | wroteSlot (room : size + 1 < capacity) :
      ProducerAt buffer overtaken gone size (.wroteSlot (buffer (.ofNat capacity (gone + size)))
        (.ofNat capacity (gone + size)))

/-- What a `Pop` knows, where `gone` values have left the buffer and `inside` are in it. It may
have moved the first of them out of its slot. -/
inductive ConsumerAt (buffer : Fin capacity → T) (overtaken : Bool) (gone : ℕ)
    (inside : List T) : PopStage T capacity → Prop
  | idle (slots : window buffer gone inside.length = inside) :
      ConsumerAt buffer overtaken gone inside .idle
  | loadedHead {currentHead : Fin capacity}
      (fresh : overtaken = false → currentHead = .ofNat capacity gone)
      (slots : window buffer gone inside.length = inside) :
      ConsumerAt buffer overtaken gone inside (.loadedHead currentHead)
  | loadedTail (fresh : overtaken = false) (nonempty : inside ≠ [])
      (slots : window buffer gone inside.length = inside) :
      ConsumerAt buffer overtaken gone inside (.loadedTail (.ofNat capacity gone))
  | readSlot (fresh : overtaken = false) {item : T} {rest : List T}
      (first : inside = item :: rest)
      (slots : window buffer (gone + 1) rest.length = rest) :
      ConsumerAt buffer overtaken gone inside (.readSlot (.ofNat capacity gone) item)

/-- The invariant, with the values that have left the buffer and those in it. -/
structure Ordered (s : RingThreads T capacity) (gone inside : List T) : Prop where
  pushed : s.pushed = gone ++ inside
  popped : s.popped.Sublist gone
  head : s.ring.head = .ofNat capacity gone.length
  tail : s.ring.tail = .ofNat capacity (gone.length + inside.length)
  room : inside.length < capacity
  dropped : s.ring.droppedCount + uncounted s.producer =
    .ofNat (gone.length - s.popped.length)
  producer : ProducerAt s.ring.buffer s.producerOvertaken gone.length inside.length s.producer
  consumer : ConsumerAt s.ring.buffer s.consumerOvertaken gone.length inside s.consumer

def Sound (s : RingThreads T capacity) : Prop :=
  (s.Stuck ∧ s.popped.Sublist s.pushed) ∨ ∃ gone inside, s.Ordered gone inside

variable {s : RingThreads T capacity} {moved : T → T} {gone inside : List T}
  {buffer : Fin capacity → T} {overtaken : Bool} {stage : PopStage T capacity}

/-! ## Steps of the producer -/

theorem ConsumerAt.update (h : ConsumerAt buffer overtaken gone.length inside stage)
    (hroom : inside.length < capacity) (item : T) :
    ConsumerAt (Function.update buffer (.ofNat capacity (gone.length + inside.length)) item)
      overtaken gone.length inside stage := by
  cases h with
  | idle slots => exact .idle ((window_update_behind hroom item).trans slots)
  | loadedHead fresh slots =>
    exact .loadedHead fresh ((window_update_behind hroom item).trans slots)
  | loadedTail fresh nonempty slots =>
    exact .loadedTail fresh nonempty ((window_update_behind hroom item).trans slots)
  | @readSlot fresh item' rest first slots =>
    have hlength : inside.length = rest.length + 1 := by rw [first, List.length_cons]
    refine .readSlot fresh first ?_
    rw [hlength, ← Nat.add_assoc, Nat.add_right_comm]
    exact (window_update_behind (by omega) item).trans slots

theorem ConsumerAt.concat (h : ConsumerAt buffer overtaken gone.length inside stage) :
    ConsumerAt buffer overtaken gone.length
      (inside ++ [buffer (.ofNat capacity (gone.length + inside.length))]) stage := by
  have hconcat (slots : window buffer gone.length inside.length = inside) :
      window buffer gone.length (inside.length + 1) =
        inside ++ [buffer (.ofNat capacity (gone.length + inside.length))] := by
    rw [window_concat, slots]
  cases h with
  | idle slots => exact .idle (by rw [List.length_append]; exact hconcat slots)
  | loadedHead fresh slots =>
    exact .loadedHead fresh (by rw [List.length_append]; exact hconcat slots)
  | loadedTail fresh nonempty slots =>
    exact .loadedTail fresh (by simp) (by rw [List.length_append]; exact hconcat slots)
  | @readSlot fresh item rest first slots =>
    have hbehind : gone.length + inside.length = gone.length + 1 + rest.length := by
      rw [first, List.length_cons, ← Nat.add_assoc, Nat.add_right_comm]
    rw [hbehind, first]
    refine .readSlot fresh List.cons_append ?_
    rw [List.length_append, List.length_singleton, window_concat, slots]

/-- Once the oldest value is dropped, a `Pop` that has found it cannot go on. -/
theorem ConsumerAt.drop {x : T} {rest : List T}
    (h : ConsumerAt buffer overtaken gone.length (x :: rest) stage) :
    (∃ currentHead, stage = .loadedTail currentHead) ∨
      (∃ currentHead item, stage = .readSlot currentHead item) ∨
        ConsumerAt buffer true (gone ++ [x]).length rest stage := by
  have hrest (slots : window buffer gone.length (rest.length + 1) = x :: rest) :
      window buffer (gone ++ [x]).length rest.length = rest := by
    rw [window_succ] at slots
    rw [List.length_append]
    exact (List.cons.inj slots).2
  cases h with
  | idle slots => exact .inr (.inr (.idle (hrest slots)))
  | loadedHead _ slots => exact .inr (.inr (.loadedHead (by simp) (hrest slots)))
  | loadedTail => exact .inl ⟨_, rfl⟩
  | readSlot => exact .inr (.inl ⟨_, _, rfl⟩)

theorem Ordered.popped_length_le (h : s.Ordered gone inside) :
    s.popped.length ≤ gone.length := h.popped.length_le

theorem Ordered.popped_sublist (h : s.Ordered gone inside) : s.popped.Sublist s.pushed := by
  rw [h.pushed]
  exact h.popped.trans (List.sublist_append_left ..)

theorem Ordered.writeSlot (h : s.Ordered gone inside) (hroom : inside.length + 1 < capacity)
    (hcounted : uncounted s.producer = 0) (item : T) :
    (s.writeSlot item (.ofNat capacity (gone.length + inside.length))).Ordered gone inside where
  pushed := h.pushed
  popped := h.popped
  head := h.head
  tail := h.tail
  room := h.room
  dropped := by
    have hdropped := h.dropped
    rwa [hcounted] at hdropped
  producer := by
    have hwrote : ProducerAt
        (Function.update s.ring.buffer (.ofNat capacity (gone.length + inside.length)) item)
        s.producerOvertaken gone.length inside.length _ := .wroteSlot hroom
    rwa [Function.update_self] at hwrote
  consumer := h.consumer.update h.room item

/-- A `Push` that finds the buffer full drops the oldest value. -/
theorem Ordered.storeHead (h : s.Ordered gone inside) {item : T}
    (hcounted : uncounted s.producer = 0) (hfull : inside.length + 1 = capacity) :
    let s' := { s with
      ring := { s.ring with head := .ofNat capacity (gone.length + 1) }
      producer := .storedHead item (.ofNat capacity (gone.length + inside.length))
      consumerOvertaken := true }
    s'.Sound := by
  intro s'
  have htwo : 2 ≤ capacity := Nat.AtLeastTwo.prop
  obtain ⟨x, rest, rfl⟩ : ∃ x rest, inside = x :: rest :=
    List.exists_cons_of_length_pos (by omega)
  rw [List.length_cons] at hfull
  have hlength : (gone ++ [x]).length = gone.length + 1 := List.length_append
  have hposition : gone.length + (x :: rest).length = (gone ++ [x]).length + rest.length := by
    rw [List.length_cons, hlength, Nat.add_right_comm, Nat.add_assoc]
  rcases h.consumer.drop with ⟨currentHead, hstage⟩ | ⟨currentHead, taken, hstage⟩ | hconsumer
  · exact .inl ⟨⟨rfl, .inl ⟨currentHead, hstage⟩⟩, h.popped_sublist⟩
  · exact .inl ⟨⟨rfl, .inr ⟨currentHead, taken, hstage⟩⟩, h.popped_sublist⟩
  refine .inr ⟨gone ++ [x], rest, ?_⟩
  constructor
  · exact h.pushed.trans (List.append_cons ..)
  · exact h.popped.trans (List.sublist_append_left ..)
  · exact congrArg (Fin.ofNat capacity) hlength.symm
  · exact h.tail.trans (congrArg (Fin.ofNat capacity) hposition)
  · omega
  · have hdropped := h.dropped
    rw [hcounted, UInt64.add_zero] at hdropped
    change s.ring.droppedCount + 1 = .ofNat ((gone ++ [x]).length - s.popped.length)
    rw [hdropped, hlength, Nat.sub_add_comm h.popped_length_le, UInt64.ofNat_add]
    rfl
  · change ProducerAt _ _ _ _ (.storedHead item (.ofNat capacity (gone.length + _)))
    rw [hposition]
    exact .storedHead item (by omega)
  · exact hconsumer

theorem Ordered.storeTail (h : s.Ordered gone inside) (hroom : inside.length + 1 < capacity)
    {item : T} (hcounted : uncounted s.producer = 0)
    (hslot : s.ring.buffer (.ofNat capacity (gone.length + inside.length)) = item) :
    Ordered { s with
      ring := { s.ring with tail := .ofNat capacity (gone.length + inside.length + 1) }
      producer := .idle
      pushed := s.pushed ++ [item] } gone (inside ++ [item]) := by
  have hlength : (inside ++ [item]).length = inside.length + 1 := List.length_append
  constructor
  · change s.pushed ++ [item] = _
    rw [h.pushed, List.append_assoc]
  · exact h.popped
  · exact h.head
  · rw [hlength]
    rfl
  · rwa [hlength]
  · have hdropped := h.dropped
    rwa [hcounted] at hdropped
  · exact .idle
  · have hconsumer := h.consumer.concat
    rwa [hslot] at hconsumer

theorem next_tail_eq_loaded_iff {loaded gone size : ℕ} (hle : loaded ≤ gone)
    (hroom : gone + size < loaded + capacity) :
    Fin.ofNat capacity (gone + size + 1) = .ofNat capacity loaded ↔
      gone + size + 1 = loaded + capacity := by
  constructor
  · intro h
    by_contra hne
    obtain ⟨d, hd⟩ : ∃ d, gone + size + 1 = loaded + d := ⟨gone + size + 1 - loaded, by omega⟩
    rw [hd] at h
    have hzero := (ofNat_add_inj (i := d) (j := 0) (by omega) (by omega)).mp h
    omega
  · intro h
    rw [h]
    exact ofNat_congr (Nat.add_mod_right ..)

theorem Ordered.producerStep (h : s.Ordered gone inside) (hg : s.StoresLoadedHead .producer) :
    s.producerStep.Sound := by
  have hp := h.producer
  unfold RingThreads.producerStep
  generalize hstage : s.producer = stage at hp
  cases hp with
  | idle => exact .inr ⟨gone, inside, h⟩
  | loadedTail item =>
    refine .inr ⟨gone, inside, { h with dropped := ?_, producer := ?_ }⟩
    · simpa [hstage, uncounted] using h.dropped
    · rw [h.head]
      exact .loadedHead item le_rfl (Nat.add_lt_add_left h.room _) fun _ => rfl
  | @loadedHead item loaded hle hroom hfresh =>
    have hcounted : uncounted s.producer = 0 := by rw [hstage]; rfl
    dsimp only
    rw [LockFreeRingBuffer.next_ofNat, LockFreeRingBuffer.next_ofNat]
    split_ifs with hfull
    · have hstores : s.producer.StoresHead := by
        rw [hstage]
        exact (LockFreeRingBuffer.next_ofNat _).trans hfull
      obtain rfl := hfresh (hg hstores)
      rw [next_tail_eq_loaded_iff hle hroom, Nat.add_assoc] at hfull
      exact h.storeHead hcounted (Nat.add_left_cancel hfull)
    · rw [next_tail_eq_loaded_iff hle hroom] at hfull
      exact .inr ⟨gone, inside, h.writeSlot (by omega) hcounted item⟩
  | storedHead item hroom =>
    refine .inr ⟨gone, inside, { h with dropped := ?_, producer := .countedDrop item hroom }⟩
    simpa [hstage, uncounted] using h.dropped
  | countedDrop item hroom =>
    exact .inr ⟨gone, inside, h.writeSlot hroom (by rw [hstage]; rfl) item⟩
  | wroteSlot hroom =>
    dsimp only
    rw [LockFreeRingBuffer.next_ofNat]
    exact .inr ⟨gone, _, h.storeTail hroom (by rw [hstage]; rfl) rfl⟩

/-! ## Steps of the consumer -/

theorem ProducerAt.update {gone size : ℕ} {stage : PushStage T capacity}
    (h : ProducerAt buffer overtaken gone size stage) (hsize : 0 < size) (x : T) :
    ProducerAt (Function.update buffer (.ofNat capacity gone) x) overtaken gone size stage := by
  cases h with
  | idle => exact .idle
  | loadedTail item => exact .loadedTail item
  | loadedHead item le room fresh => exact .loadedHead item le room fresh
  | storedHead item room => exact .storedHead item room
  | countedDrop item room => exact .countedDrop item room
  | wroteSlot room =>
    have hne : Fin.ofNat capacity (gone + size) ≠ .ofNat capacity gone := by
      intro hsame
      have hzero := (ofNat_add_inj (i := size) (j := 0) (by omega) (by omega)).mp hsame
      omega
    have hwrote : ProducerAt (Function.update buffer (.ofNat capacity gone) x) overtaken gone size
        _ := .wroteSlot room
    rwa [Function.update_of_ne hne] at hwrote

theorem ProducerAt.advance {gone size : ℕ} {stage : PushStage T capacity}
    (h : ProducerAt buffer overtaken gone (size + 1) stage) :
    ProducerAt buffer true (gone + 1) size stage := by
  have hposition : gone + (size + 1) = gone + 1 + size := by omega
  cases h with
  | idle => exact .idle
  | loadedTail item => rw [hposition]; exact .loadedTail item
  | loadedHead item le room fresh =>
    rw [hposition] at room ⊢
    exact .loadedHead item (Nat.le_succ_of_le le) room (by simp)
  | storedHead item room => rw [hposition]; exact .storedHead item (Nat.lt_of_succ_lt room)
  | countedDrop item room => rw [hposition]; exact .countedDrop item (Nat.lt_of_succ_lt room)
  | wroteSlot room => rw [hposition]; exact .wroteSlot (Nat.lt_of_succ_lt room)

/-- One step of a `Pop`, which has not been overtaken once it has found an element. -/
theorem Ordered.consumerStep (h : s.Ordered gone inside) : (s.consumerStep moved).1.Sound := by
  have hc := h.consumer
  unfold RingThreads.consumerStep
  generalize hstage : s.consumer = stage at hc
  cases hc with
  | idle slots =>
    exact .inr ⟨gone, inside, { h with consumer := .loadedHead (fun _ => h.head) slots }⟩
  | @loadedHead currentHead fresh slots =>
    dsimp only
    split_ifs with hempty
    · exact .inr ⟨gone, inside, { h with consumer := .idle slots }⟩
    · rcases Bool.eq_false_or_eq_true s.consumerOvertaken with hovertaken | hovertaken
      · exact .inl ⟨⟨hovertaken, .inl ⟨currentHead, rfl⟩⟩, h.popped_sublist⟩
      · obtain rfl := fresh hovertaken
        refine .inr ⟨gone, inside, { h with consumer := .loadedTail hovertaken ?_ slots }⟩
        rintro rfl
        exact hempty h.tail.symm
  | loadedTail fresh nonempty slots =>
    obtain ⟨item, rest, rfl⟩ := List.exists_cons_of_ne_nil nonempty
    rw [List.length_cons, window_succ] at slots
    obtain ⟨hitem, hrest⟩ := List.cons.inj slots
    have hroom := h.room
    rw [List.length_cons] at hroom
    refine .inr ⟨gone, item :: rest, { h with producer := ?_, consumer := ?_ }⟩
    · exact h.producer.update (Nat.succ_pos _) _
    · refine .readSlot fresh (by rw [hitem]) ?_
      exact (window_update_before (Nat.lt_of_succ_lt hroom) _).trans hrest
  | @readSlot _ item rest first slots =>
    subst first
    have hlength : (gone ++ [item]).length = gone.length + 1 := List.length_append
    refine .inr ⟨gone ++ [item], rest, ?_⟩
    constructor
    · exact h.pushed.trans (List.append_cons ..)
    · exact h.popped.append (List.Sublist.refl _)
    · rw [hlength]
      exact LockFreeRingBuffer.next_ofNat _
    · refine h.tail.trans (congrArg (Fin.ofNat capacity) ?_)
      rw [hlength, List.length_cons]
      omega
    · exact Nat.lt_of_succ_lt h.room
    · have hpopped : (s.popped ++ [item]).length = s.popped.length + 1 := List.length_append
      rw [hlength, hpopped, Nat.add_sub_add_right]
      exact h.dropped
    · rw [hlength]
      exact h.producer.advance
    · rw [← hlength] at slots
      exact .idle slots

/-! ## Runs -/

theorem Stuck.step (h : s.Stuck) (hpopped : s.popped.Sublist s.pushed) {i : RingStep T}
    (hg : s.StoresLoadedHead i) :
    (s.step moved i).1.Stuck ∧ (s.step moved i).1.popped.Sublist (s.step moved i).1.pushed := by
  obtain ⟨hovertaken, hstage⟩ := h
  cases i with
  | push item =>
    rw [RingThreads.step]
    split
    · exact ⟨⟨hovertaken, hstage⟩, hpopped⟩
    · exact ⟨⟨hovertaken, hstage⟩, hpopped⟩
  | producer =>
    rw [RingThreads.step, RingThreads.producerStep]
    cases s.producer with
    | idle | loadedTail | storedHead | countedDrop => exact ⟨⟨hovertaken, hstage⟩, hpopped⟩
    | loadedHead =>
      dsimp only
      split_ifs
      · exact ⟨⟨rfl, hstage⟩, hpopped⟩
      · exact ⟨⟨hovertaken, hstage⟩, hpopped⟩
    | wroteSlot =>
      exact ⟨⟨hovertaken, hstage⟩, hpopped.trans (List.sublist_append_left ..)⟩
  | consumer =>
    rw [RingThreads.step, RingThreads.consumerStep]
    rcases hstage with ⟨currentHead, hstage⟩ | ⟨currentHead, item, hstage⟩
    · rw [hstage]
      exact ⟨⟨hovertaken, .inr ⟨_, _, rfl⟩⟩, hpopped⟩
    · have hstores : s.consumer.StoresHead := by rw [hstage]; trivial
      cases hovertaken.symm.trans (hg hstores)

theorem Ordered.step (h : s.Ordered gone inside) {i : RingStep T} (hg : s.StoresLoadedHead i) :
    (s.step moved i).1.Sound := by
  cases i with
  | push item =>
    have hdropped := h.dropped
    rw [RingThreads.step]
    cases hstage : s.producer with
    | idle =>
      rw [hstage] at hdropped
      refine .inr ⟨gone, inside, { h with dropped := hdropped, producer := ?_ }⟩
      dsimp only
      rw [h.tail]
      exact .loadedTail item
    | _ => exact .inr ⟨gone, inside, h⟩
  | producer => exact h.producerStep hg
  | consumer => exact h.consumerStep

theorem Sound.step (h : s.Sound) {i : RingStep T} (hg : s.StoresLoadedHead i) :
    (s.step moved i).1.Sound := by
  rcases h with ⟨hstuck, hpopped⟩ | ⟨gone, inside, hordered⟩
  · exact .inl (hstuck.step hpopped hg)
  · exact hordered.step hg

theorem sound_create [Inhabited T] : (create : RingThreads T capacity).Sound := by
  refine .inr ⟨[], [], ?_⟩
  constructor
  · rfl
  · exact List.Sublist.refl _
  · rfl
  · rfl
  · exact Nat.pos_of_neZero capacity
  · rfl
  · exact .idle
  · exact .idle rfl

theorem Sound.accounted (h : s.Sound) : s.Accounted := by
  rcases h with ⟨⟨-, hstage⟩, hpopped⟩ | ⟨gone, inside, hordered⟩
  · refine ⟨hpopped, fun _ hidle => ?_⟩
    rcases hstage with ⟨currentHead, hstage⟩ | ⟨currentHead, item, hstage⟩
    · cases hidle.symm.trans hstage
    · cases hidle.symm.trans hstage
  · refine ⟨hordered.popped_sublist, fun hproducer hconsumer => ?_⟩
    have hslots := hordered.consumer
    have hdropped := hordered.dropped
    rw [hconsumer] at hslots
    rw [hproducer] at hdropped
    cases hslots with
    | idle slots =>
      have hcontents : s.ring.contents = inside := by
        rw [LockFreeRingBuffer.contents_eq hordered.head hordered.tail hordered.room, slots]
      obtain ⟨dropped, hperm⟩ := hordered.popped.exists_perm_append
      have hlength := hperm.length_eq
      rw [List.length_append] at hlength
      refine ⟨dropped, ?_, ?_⟩
      · rw [hordered.pushed, hcontents]
        exact hperm.append_right inside
      · have hzero : uncounted (.idle : PushStage T capacity) = 0 := rfl
        rwa [hlength, Nat.add_sub_cancel_left, hzero, UInt64.add_zero] at hdropped

/-- In a run in which each thread stores the head only while it is as it was loaded, the values
popped are a subsequence of the values pushed, and no value is lost or counted twice. -/
theorem accounted_of_storesLoadedHead [Inhabited T] (moved : T → T) {steps : List (RingStep T)}
    (h : Machine.Guarded (step moved) StoresLoadedHead
      (create : RingThreads T capacity) steps) :
    (Machine.exec (step moved) (create : RingThreads T capacity) steps).1.Accounted := by
  have hstep (s : RingThreads T capacity) (i : RingStep T) (hs : s.Sound)
      (hg : s.StoresLoadedHead i) :
      (s.step moved i).1.Sound ∧ ∀ o ∈ (s.step moved i).2, True :=
    ⟨hs.step hg, fun _ _ => trivial⟩
  exact (h.invariant hstep sound_create).1.accounted

/-- An overflow, and a `Pop` that ends before the `Push` under way loads the head. -/
theorem accounted_after_overflow :
    let push (item : ℕ) : List (RingStep ℕ) := .push item :: .replicate 5 .producer
    let steps := push 0 ++ push 1 ++ push 2 ++ .replicate 3 .consumer ++
      [.push 3, .consumer, .producer, .producer, .producer]
    (Machine.exec (step id) (create : RingThreads ℕ 3) steps).1.popped = [1] ∧
      (Machine.exec (step id) (create : RingThreads ℕ 3) steps).1.Accounted := by
  intro push steps
  exact ⟨by decide, accounted_of_storesLoadedHead id (by decide)⟩

/-- In the first run a `Push` is overtaken by two `Pop`s and a value is popped twice; in the
second a `Pop` is overtaken by two `Push`es and a value is lost. -/
theorem not_accounted_overtaken :
    let producer (n : ℕ) : List (RingStep ℕ) := .replicate n .producer
    let consumer (n : ℕ) : List (RingStep ℕ) := .replicate n .consumer
    let fill : List (RingStep ℕ) := .push 0 :: producer 3 ++ .push 1 :: producer 3
    let overtakenPush : List (RingStep ℕ) :=
      fill ++ .push 2 :: producer 1 ++ consumer 8 ++ producer 4 ++ consumer 4
    let overtakenPop : List (RingStep ℕ) :=
      fill ++ consumer 2 ++ .push 2 :: producer 5 ++ .push 3 :: producer 5 ++ consumer 2
    ¬ (Machine.exec (step id) (create : RingThreads ℕ 3) overtakenPush).1.Accounted ∧
      ¬ (Machine.exec (step id) (create : RingThreads ℕ 3) overtakenPop).1.Accounted := by
  intro producer consumer fill overtakenPush overtakenPop
  constructor
  · rintro ⟨hpopped, -⟩
    have htwice : ¬ [0, 1, 1].Sublist [0, 1, 2] := by decide
    exact htwice hpopped
  · rintro ⟨-, haccounted⟩
    obtain ⟨dropped, hperm, hcount⟩ := haccounted rfl rfl
    have hlength := hperm.length_eq
    rw [List.length_append, List.length_append] at hlength
    change 4 = 1 + dropped.length + 0 at hlength
    have hthree : dropped.length = 3 := by omega
    rw [hthree] at hcount
    exact absurd hcount (by decide)

end RingThreads

end VeyraCam
