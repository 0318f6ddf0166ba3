import Mathlib.Data.List.Basic
import Mathlib.Data.Nat.ModEq

namespace HeidiKernel

/-! The ring buffer of the status socket. It keeps the last items pushed, up to
its capacity. -/

structure RingBuffer (α : Type*) where
  capacity : Nat
  buffer : List α
  head : Nat := 0
  tail : Nat := 0
  full : Bool := false
  deriving DecidableEq, Repr

namespace RingBuffer

variable {α : Type*}

/-- `buffer_(capacity)` fills the cells with default items. -/
def create (capacity : Nat) (blank : α) : RingBuffer α where
  capacity := capacity
  buffer := List.replicate capacity blank

def push (item : α) (ring : RingBuffer α) : RingBuffer α :=
  let head := (ring.head + 1) % ring.capacity
  let tail := if ring.full then (ring.tail + 1) % ring.capacity else ring.tail
  { ring with
    buffer := ring.buffer.set ring.head item
    head
    tail
    full := if head = tail then true else ring.full }

def size (ring : RingBuffer α) : Nat :=
  if ring.full then
    ring.capacity
  else if ring.head ≥ ring.tail then
    ring.head - ring.tail
  else
    ring.capacity + ring.head - ring.tail

def lastN (n : Nat) (ring : RingBuffer α) : List α :=
  let toFetch := min n ring.size
  (List.range toFetch).filterMap fun i =>
    ring.buffer[(ring.head + ring.capacity - toFetch + i) % ring.capacity]?

/-- The ring after the given items have been pushed. -/
structure Holds (ring : RingBuffer α) (pushed : List α) : Prop where
  positive : 0 < ring.capacity
  length : ring.buffer.length = ring.capacity
  head : ring.head = pushed.length % ring.capacity
  full : ring.full = true ↔ ring.capacity ≤ pushed.length
  tail : ring.tail = if ring.full then ring.head else 0
  cells : ∀ j < pushed.length, pushed.length ≤ j + ring.capacity →
    ring.buffer[j % ring.capacity]? = pushed[j]?

theorem create_holds {capacity : Nat} (h : 0 < capacity) (blank : α) :
    (create capacity blank).Holds [] where
  positive := h
  length := List.length_replicate
  head := (Nat.zero_mod capacity).symm
  full := by simp [create, Nat.ne_of_gt h]
  tail := rfl
  cells := by simp

theorem cell_ne {capacity j n : Nat} (hj : j < n)
    (hkept : n + 1 ≤ j + capacity) : j % capacity ≠ n % capacity := by
  intro hsame
  have hdvd := (Nat.modEq_iff_dvd' hj.le).mp hsame
  have := Nat.le_of_dvd (by omega) hdvd
  omega

theorem filterMap_range_getElem? (xs : List α) (n : Nat) :
    (List.range n).filterMap (fun i => xs[i]?) = xs.take n := by
  induction n with
  | zero => rfl
  | succ n ih =>
      rw [List.range_succ, List.filterMap_append, ih, List.take_add_one]
      cases h : xs[n]? <;> simp [h]

namespace Holds

variable {ring : RingBuffer α} {pushed : List α} (h : ring.Holds pushed)

include h

theorem tail_eq_head (hfull : ring.full = true) : ring.tail = ring.head := by
  rw [h.tail, if_pos hfull]

/-- Until the first wrap the items fill the cells from the first one on. -/
theorem not_full (hroom : ring.full = false) :
    pushed.length < ring.capacity ∧ ring.head = pushed.length ∧
      ring.tail = 0 := by
  have hfew : pushed.length < ring.capacity := by
    rw [← Nat.not_le, ← h.full]
    simp [hroom]
  refine ⟨hfew, ?_, ?_⟩
  · rw [h.head, Nat.mod_eq_of_lt hfew]
  · rw [h.tail, hroom]
    rfl

theorem head_push (item : α) :
    (ring.push item).head = (pushed ++ [item]).length % ring.capacity := by
  rw [List.length_append, List.length_singleton]
  change (ring.head + 1) % ring.capacity = _
  rw [h.head, Nat.mod_add_mod]

theorem full_push (item : α) :
    (ring.push item).full = true ↔ ring.capacity ≤ pushed.length + 1 := by
  cases hbefore : ring.full with
  | true =>
      have hmany := h.full.mp hbefore
      simp only [RingBuffer.push, hbefore, if_true, h.tail_eq_head hbefore,
        true_iff]
      omega
  | false =>
      obtain ⟨hfew, hhead, htail⟩ := h.not_full hbefore
      simp only [RingBuffer.push, hbefore, Bool.false_eq_true, if_false,
        hhead, htail]
      rcases Nat.lt_or_ge (pushed.length + 1) ring.capacity with hmore | hlast
      · rw [Nat.mod_eq_of_lt hmore]
        simp
        omega
      · have heq : pushed.length + 1 = ring.capacity := by omega
        rw [heq, Nat.mod_self]
        simp

theorem tail_push (item : α) :
    (ring.push item).tail =
      if (ring.push item).full then (ring.push item).head else 0 := by
  cases hbefore : ring.full with
  | true => simp [RingBuffer.push, hbefore, h.tail_eq_head hbefore]
  | false =>
      obtain ⟨_, _, htail⟩ := h.not_full hbefore
      simp only [RingBuffer.push, hbefore, Bool.false_eq_true, if_false,
        htail]
      split <;> simp_all

/-- The new item takes the cell of the one that is given up. -/
theorem cells_push (item : α) (j : Nat) (hj : j < (pushed ++ [item]).length)
    (hkept : (pushed ++ [item]).length ≤ j + ring.capacity) :
    (ring.push item).buffer[j % ring.capacity]? = (pushed ++ [item])[j]? := by
  have hlt : ring.head < ring.buffer.length := by
    rw [h.head, h.length]
    exact Nat.mod_lt _ h.positive
  change (ring.buffer.set ring.head item)[j % ring.capacity]? = _
  rw [List.length_append, List.length_singleton] at hj hkept
  rcases Nat.lt_or_eq_of_le (Nat.le_of_lt_succ hj) with hold | rfl
  · have hne := cell_ne hold hkept
    rw [← h.head] at hne
    rw [List.getElem?_set_ne (Ne.symm hne), h.cells j hold (by omega),
      List.getElem?_append_left hold]
  · rw [← h.head, List.getElem?_set_self hlt,
      List.getElem?_append_right (Nat.le_refl _), Nat.sub_self]
    rfl

theorem push (item : α) : (ring.push item).Holds (pushed ++ [item]) where
  positive := h.positive
  length := (List.length_set ..).trans h.length
  head := h.head_push item
  full := by
    rw [h.full_push item, List.length_append]
    rfl
  tail := h.tail_push item
  cells := h.cells_push item

theorem size_eq : ring.size = min pushed.length ring.capacity := by
  unfold size
  cases hfull : ring.full with
  | true =>
      have := h.full.mp hfull
      simp only [if_true]
      omega
  | false =>
      obtain ⟨hfew, hhead, htail⟩ := h.not_full hfull
      simp only [Bool.false_eq_true, if_false]
      rw [htail, hhead, if_pos (Nat.zero_le _)]
      omega

theorem lastN_eq (n : Nat) :
    ring.lastN n =
      pushed.drop (pushed.length - min n ring.capacity) := by
  obtain ⟨fetched, hfetched⟩ : ∃ fetched, fetched = min n ring.size := ⟨_, rfl⟩
  have hsize := h.size_eq
  have hfew : fetched ≤ pushed.length := by omega
  have hcap : fetched ≤ ring.capacity := by omega
  have hcells : ∀ i ∈ List.range fetched,
      ring.buffer[(ring.head + ring.capacity - fetched + i) %
        ring.capacity]? = (pushed.drop (pushed.length - fetched))[i]? := by
    intro i hi
    have hi' := List.mem_range.mp hi
    have hindex : (ring.head + ring.capacity - fetched + i) % ring.capacity =
        (pushed.length - fetched + i) % ring.capacity := by
      have hsplit := Nat.div_add_mod pushed.length ring.capacity
      rw [← h.head] at hsplit
      have hsum : ring.head + ring.capacity - fetched + i +
          ring.capacity * (pushed.length / ring.capacity) =
          pushed.length - fetched + i + ring.capacity := by
        omega
      rw [← Nat.add_mul_mod_self_left, hsum, Nat.add_mod_right]
    rw [hindex, h.cells _ (by omega) (by omega), List.getElem?_drop]
  have hdrop : pushed.length - min n ring.capacity =
      pushed.length - fetched := by
    omega
  rw [lastN, ← hfetched, List.filterMap_congr hcells,
    filterMap_range_getElem?, hdrop]
  exact List.take_of_length_le (by rw [List.length_drop]; omega)

end Holds

/-! A fresh ring after a run of pushes. -/

def pushAll (items : List α) (ring : RingBuffer α) : RingBuffer α :=
  items.foldl (fun ring item => ring.push item) ring

def afterPushes (capacity : Nat) (blank : α) (xs : List α) : RingBuffer α :=
  (create capacity blank).pushAll xs

/-- The cells `last_n` reads, in its order. -/
def readIndices (n : Nat) (ring : RingBuffer α) : List Nat :=
  let toFetch := min n ring.size
  (List.range toFetch).map fun i =>
    (ring.head + ring.capacity - toFetch + i) % ring.capacity

theorem lastN_readIndices (n : Nat) (ring : RingBuffer α) :
    ring.lastN n = (ring.readIndices n).filterMap (ring.buffer[·]?) := by
  rw [readIndices, List.filterMap_map]
  rfl

theorem Holds.pushAll {ring : RingBuffer α} {pushed : List α}
    (h : ring.Holds pushed) (items : List α) :
    (ring.pushAll items).Holds (pushed ++ items) := by
  induction items generalizing ring pushed with
  | nil =>
      rw [List.append_nil]
      exact h
  | cons item items ih =>
      rw [List.append_cons]
      exact ih (h.push item)

@[simp] theorem capacity_pushAll (items : List α) (ring : RingBuffer α) :
    (ring.pushAll items).capacity = ring.capacity := by
  induction items generalizing ring with
  | nil => rfl
  | cons item items ih => exact ih (ring.push item)

namespace Holds

variable {ring : RingBuffer α} {pushed : List α} (h : ring.Holds pushed)

include h

theorem head_inRange : ring.head < ring.buffer.length := by
  rw [h.head, h.length]
  exact Nat.mod_lt _ h.positive

theorem readIndices_inRange (n : Nat) :
    ∀ i ∈ ring.readIndices n, i < ring.buffer.length := by
  intro i hi
  obtain ⟨offset, _, rfl⟩ := List.mem_map.mp hi
  rw [h.length]
  exact Nat.mod_lt _ h.positive

end Holds

/-- The ring behaves as the list of its pushes, and touches only its own
cells. -/
theorem ringBuffer_refines {capacity : Nat} (hcapacity : 1 ≤ capacity)
    (blank : α) (xs : List α) (n : Nat) :
    (afterPushes capacity blank xs).size = min capacity xs.length ∧
      (afterPushes capacity blank xs).lastN n =
        xs.drop (xs.length - min n (min capacity xs.length)) ∧
      (afterPushes capacity blank xs).head <
        (afterPushes capacity blank xs).buffer.length ∧
      (afterPushes capacity blank xs).lastN n =
        ((afterPushes capacity blank xs).readIndices n).filterMap
          ((afterPushes capacity blank xs).buffer[·]?) ∧
      (∀ i ∈ (afterPushes capacity blank xs).readIndices n,
        i < (afterPushes capacity blank xs).buffer.length) ∧
      ((afterPushes capacity blank xs).full = true →
        (afterPushes capacity blank xs).head =
          (afterPushes capacity blank xs).tail) ∧
      (xs.length < capacity → (afterPushes capacity blank xs).tail = 0) := by
  have h : (afterPushes capacity blank xs).Holds xs :=
    (create_holds hcapacity blank).pushAll xs
  have hsame : (afterPushes capacity blank xs).capacity = capacity :=
    capacity_pushAll xs _
  refine ⟨?_, ?_, h.head_inRange, lastN_readIndices n _,
    h.readIndices_inRange n, ?_, ?_⟩
  · rw [h.size_eq, hsame, Nat.min_comm]
  · rw [h.lastN_eq, hsame]
    congr 1
    omega
  · intro hfull
    exact (h.tail_eq_head hfull).symm
  · intro hfew
    cases hfull : (afterPushes capacity blank xs).full with
    | true =>
        have := h.full.mp hfull
        omega
    | false => exact (h.not_full hfull).2.2

theorem ringBuffer_refines_one :
    (afterPushes 1 (0 : Nat) [7, 8]).lastN 5 = [8] :=
  (ringBuffer_refines (Nat.le_refl 1) 0 [7, 8] 5).2.1

end RingBuffer

end HeidiKernel
