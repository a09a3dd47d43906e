import Mathlib.Tactic
import Mathlib.Logic.Function.Basic

/-!
# Ring buffers and bounded queues

A ring buffer is an array of `capacity` slots with a read position, a write position and a count,
which tells an empty ring from a full one; the structure carries the equation between them. `Fifo`
is the abstract object: a list of at most `capacity` elements. Each ring operation is one operation
of the queue the ring holds.
-/

namespace GrahaOS.RingBuffer

open Function List

variable {α : Type*}

/-- A bounded first-in first-out queue. -/
@[ext]
structure Fifo (α : Type*) where
  capacity : ℕ
  queue : List α
  bound : queue.length ≤ capacity

/-- Append an element unless the queue is full. -/
def Fifo.enqueue (q : Fifo α) (x : α) : Option (Fifo α) :=
  if h : q.queue.length < q.capacity then
    some { q with queue := q.queue ++ [x], bound := by simpa using h }
  else none

/-- Take the oldest element. -/
def Fifo.dequeue (q : Fifo α) : Option (α × Fifo α) :=
  match h : q.queue with
  | [] => none
  | x :: rest => some (x, { q with
      queue := rest
      bound := by
        have := q.bound
        rw [h] at this
        exact (Nat.le_succ _).trans this })

theorem Fifo.enqueue_eq_some {q q' : Fifo α} {x : α} :
    q.enqueue x = some q' ↔ q.queue.length < q.capacity ∧ q'.capacity = q.capacity ∧
      q'.queue = q.queue ++ [x] := by
  unfold Fifo.enqueue
  by_cases h : q.queue.length < q.capacity
  · simp [h, Fifo.ext_iff, eq_comm]
  · simp [h]

theorem Fifo.dequeue_eq_some {q q' : Fifo α} {x : α} :
    q.dequeue = some (x, q') ↔ q'.capacity = q.capacity ∧ q.queue = x :: q'.queue := by
  unfold Fifo.dequeue
  split
  · next h => simp [h]
  next y rest h =>
  constructor
  · intro heq
    cases heq
    exact ⟨rfl, h⟩
  · rintro ⟨hcap, hqueue⟩
    obtain ⟨rfl, rfl⟩ := cons.inj (h.symm.trans hqueue)
    simp [Fifo.ext_iff, hcap]

structure RingBuf (α : Type*) where
  capacity : ℕ
  head : ℕ
  tail : ℕ
  count : ℕ
  slots : ℕ → α
  head_lt : head < capacity
  count_le : count ≤ capacity
  tail_eq : tail = (head + count) % capacity

namespace RingBuf

variable (r : RingBuf α)

lemma capacity_pos : 0 < r.capacity := (Nat.zero_le _).trans_lt r.head_lt

/-- The slot `i` places after the head. -/
def place (i : ℕ) : ℕ := (r.head + i) % r.capacity

/-- The elements of the ring, oldest first. -/
def contents : List α := (List.range r.count).map fun i => r.slots (r.place i)

@[simp] lemma length_contents : r.contents.length = r.count := by
  simp [contents]

def toFifo : Fifo α := ⟨r.capacity, r.contents, by simpa using r.count_le⟩

@[simp] lemma toFifo_capacity : r.toFifo.capacity = r.capacity := rfl

@[simp] lemma toFifo_queue : r.toFifo.queue = r.contents := rfl

lemma place_ne_tail {i : ℕ} (hi : i < r.count) (hroom : r.count < r.capacity) :
    r.place i ≠ r.tail := by
  intro heq
  rw [place, r.tail_eq] at heq
  have hmod : i % r.capacity = r.count % r.capacity := Nat.ModEq.add_left_cancel' r.head heq
  rw [Nat.mod_eq_of_lt (hi.trans hroom), Nat.mod_eq_of_lt hroom] at hmod
  omega

lemma place_succ_ne_head {i : ℕ} (hi : i + 1 < r.capacity) : r.place (i + 1) ≠ r.head := by
  intro heq
  have hhead : r.head = r.head % r.capacity := (Nat.mod_eq_of_lt r.head_lt).symm
  rw [place, hhead, ← hhead] at heq
  have hmod : (i + 1) % r.capacity = 0 % r.capacity := by
    apply Nat.ModEq.add_left_cancel' r.head
    rw [Nat.ModEq, heq, Nat.add_zero, ← hhead]
  rw [Nat.mod_eq_of_lt hi, Nat.zero_mod] at hmod
  omega

/-- An empty ring. -/
def empty (capacity : ℕ) (hpos : 0 < capacity) (fill : α) : RingBuf α where
  capacity := capacity
  head := 0
  tail := 0
  count := 0
  slots := fun _ => fill
  head_lt := hpos
  count_le := Nat.zero_le _
  tail_eq := by simp

/-- Write the slot at the tail and advance the tail. -/
def push (x : α) (hroom : r.count < r.capacity) : RingBuf α where
  capacity := r.capacity
  head := r.head
  tail := (r.tail + 1) % r.capacity
  count := r.count + 1
  slots := Function.update r.slots r.tail x
  head_lt := r.head_lt
  count_le := hroom
  tail_eq := by rw [r.tail_eq, Nat.mod_add_mod, Nat.add_assoc]

theorem contents_push (x : α) (hroom : r.count < r.capacity) :
    (r.push x hroom).contents = r.contents ++ [x] := by
  have hkeep : ∀ i ∈ List.range r.count, (r.push x hroom).slots ((r.push x hroom).place i) =
      r.slots (r.place i) := by
    intro i hi
    exact update_of_ne (r.place_ne_tail (mem_range.mp hi) hroom) _ _
  have hlast : (r.push x hroom).slots ((r.push x hroom).place r.count) = x := by
    have : (r.push x hroom).place r.count = r.tail := r.tail_eq.symm
    rw [this]
    exact update_self _ _ _
  have hcount : (r.push x hroom).count = r.count + 1 := rfl
  rw [contents, hcount, range_succ, map_append, map_congr_left hkeep]
  simp only [map_cons, map_nil, hlast]
  rfl

/-- The element at the head. -/
def front : α := r.slots r.head

/-- Advance the head past an element; `scrub` is what happens to the slot it leaves. -/
def pop (scrub : α → α) (hsome : 0 < r.count) : RingBuf α where
  capacity := r.capacity
  head := (r.head + 1) % r.capacity
  tail := r.tail
  count := r.count - 1
  slots := Function.update r.slots r.head (scrub r.front)
  head_lt := Nat.mod_lt _ r.capacity_pos
  count_le := (Nat.sub_le _ _).trans r.count_le
  tail_eq := by
    rw [r.tail_eq, Nat.mod_add_mod]
    congr 1
    omega

theorem contents_pop (scrub : α → α) (hsome : 0 < r.count) :
    r.contents = r.front :: (r.pop scrub hsome).contents := by
  have hfirst : r.slots (r.place 0) = r.front := by
    rw [place, Nat.add_zero, Nat.mod_eq_of_lt r.head_lt]
    rfl
  have hnext : ∀ i, (r.pop scrub hsome).place i = r.place (i + 1) := by
    intro i
    simp only [place, pop, Nat.mod_add_mod]
    congr 1
    omega
  have hkeep : ∀ i ∈ List.range (r.count - 1), r.slots (r.place (i + 1)) =
      (r.pop scrub hsome).slots ((r.pop scrub hsome).place i) := by
    intro i hi
    have hlt := mem_range.mp hi
    have hle := r.count_le
    rw [hnext]
    exact (update_of_ne (r.place_succ_ne_head (by omega)) _ _).symm
  have hcount : r.count = r.count - 1 + 1 := by omega
  rw [contents, hcount, range_succ_eq_map, map_cons, hfirst, map_map]
  rw [contents]
  exact congrArg _ (map_congr_left hkeep)

/-- Set both positions, with the shorter of the two counts they allow. -/
def reposition (head tail : ℕ) : RingBuf α where
  capacity := r.capacity
  head := head % r.capacity
  tail := tail % r.capacity
  count := if head % r.capacity ≤ tail % r.capacity then
      tail % r.capacity - head % r.capacity
    else r.capacity - head % r.capacity + tail % r.capacity
  slots := r.slots
  head_lt := Nat.mod_lt _ r.capacity_pos
  count_le := by
    have := Nat.mod_lt tail r.capacity_pos
    split <;> omega
  tail_eq := by
    have hh := Nat.mod_lt head r.capacity_pos
    have ht := Nat.mod_lt tail r.capacity_pos
    split
    · rw [Nat.add_sub_cancel' (by assumption), Nat.mod_eq_of_lt ht]
    · have : head % r.capacity + (r.capacity - head % r.capacity + tail % r.capacity) =
          tail % r.capacity + r.capacity := by omega
      rw [this, Nat.add_mod_right, Nat.mod_eq_of_lt ht]

/-- A ring put back to the positions and count it has holds the same queue. -/
theorem contents_reposition {head tail : ℕ} (hhead : head % r.capacity = r.head)
    (hcount : (r.reposition head tail).count = r.count) :
    (r.reposition head tail).contents = r.contents := by
  unfold contents
  rw [hcount]
  refine map_congr_left fun i _ => ?_
  simp only [place, reposition, hhead]

/-- Put back to its own positions, a ring gets the count they determine: a full ring has
the positions of an empty one. -/
theorem count_reposition_self :
    (r.reposition r.head r.tail).count = if r.count < r.capacity then r.count else 0 := by
  have hhead := r.head_lt
  have hle := r.count_le
  have htail : r.tail = (r.head + r.count) % r.capacity := r.tail_eq
  have htail_lt : r.tail < r.capacity := by
    rw [htail]
    exact Nat.mod_lt _ r.capacity_pos
  simp only [reposition, Nat.mod_eq_of_lt hhead, Nat.mod_eq_of_lt htail_lt]
  rcases Nat.lt_or_ge (r.head + r.count) r.capacity with hflat | hwraps
  · rw [Nat.mod_eq_of_lt hflat] at htail
    split_ifs <;> omega
  · rw [Nat.mod_eq_sub_mod hwraps, Nat.mod_eq_of_lt (by omega)] at htail
    split_ifs <;> omega

theorem toFifo_push (x : α) (hroom : r.count < r.capacity) :
    r.toFifo.enqueue x = some (r.push x hroom).toFifo := by
  rw [Fifo.enqueue_eq_some]
  exact ⟨by simpa using hroom, rfl, r.contents_push x hroom⟩

theorem toFifo_pop (scrub : α → α) (hsome : 0 < r.count) :
    r.toFifo.dequeue = some (r.front, (r.pop scrub hsome).toFifo) := by
  rw [Fifo.dequeue_eq_some]
  exact ⟨rfl, r.contents_pop scrub hsome⟩

theorem toFifo_enqueue_none (x : α) (hfull : ¬r.count < r.capacity) :
    r.toFifo.enqueue x = none := by
  unfold Fifo.enqueue
  exact dif_neg (by simpa using hfull)

theorem toFifo_dequeue_none (hempty : ¬0 < r.count) : r.toFifo.dequeue = none := by
  have hnil : r.contents = [] := by
    rw [← length_eq_zero_iff, length_contents]
    omega
  rcases hdeq : r.toFifo.dequeue with _ | ⟨x, q⟩
  · rfl
  · have hqueue := (Fifo.dequeue_eq_some.mp hdeq).2
    rw [toFifo_queue, hnil] at hqueue
    cases hqueue

end RingBuf

end GrahaOS.RingBuffer
