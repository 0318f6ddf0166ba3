import Mathlib.Data.List.Basic
import Mathlib.Data.List.TakeDrop

namespace HeidiKernel.Data

/-! Serving a queue from the front under a budget which only the successful
entries use up. -/

variable {α : Type*} (succeeds : α → Bool)

/-- How many entries are taken off the queue. -/
def servedCount : Nat → List α → Nat
  | _, [] => 0
  | 0, _ :: _ => 0
  | budget + 1, x :: queue =>
      servedCount (if succeeds x then budget else budget + 1) queue + 1

@[simp] theorem servedCount_nil (budget : Nat) :
    servedCount succeeds budget [] = 0 := by
  cases budget <;> rfl

@[simp] theorem servedCount_zero (queue : List α) :
    servedCount succeeds 0 queue = 0 := by
  cases queue <;> rfl

theorem servedCount_cons_of_pos {budget : Nat} (h : 0 < budget) (x : α)
    (queue : List α) :
    servedCount succeeds budget (x :: queue) =
      servedCount succeeds (if succeeds x then budget - 1 else budget) queue +
        1 := by
  obtain ⟨budget, rfl⟩ := Nat.exists_eq_succ_of_ne_zero (Nat.ne_of_gt h)
  rfl

/-- An entry is served exactly if the successes in front of it leave some of
the budget. -/
theorem lt_servedCount_iff {budget i : Nat} {queue : List α} :
    i < servedCount succeeds budget queue ↔
      i < queue.length ∧ (queue.take i).countP succeeds < budget := by
  induction queue generalizing budget i with
  | nil => simp
  | cons x queue ih =>
      cases budget with
      | zero => simp
      | succ budget =>
          rw [servedCount_cons_of_pos succeeds (Nat.succ_pos budget)]
          cases i with
          | zero => simp
          | succ i =>
              cases hx : succeeds x <;>
                simp [hx, ih]

theorem servedCount_le_length (budget : Nat) (queue : List α) :
    servedCount succeeds budget queue ≤ queue.length := by
  by_contra hlt
  have hserved := (lt_servedCount_iff succeeds).mp (Nat.not_le.mp hlt)
  exact Nat.lt_irrefl _ hserved.1

/-- No more than `n` entries are served exactly if there are no more or the
first `n` use up the budget. -/
theorem servedCount_le_iff {budget n : Nat} {queue : List α} :
    servedCount succeeds budget queue ≤ n ↔
      (n < queue.length → budget ≤ (queue.take n).countP succeeds) := by
  rw [← Nat.not_lt, lt_servedCount_iff, not_and, Nat.not_lt]

/-- The successes among the served entries: all of them, up to the budget. -/
theorem countP_take_servedCount (budget : Nat) (queue : List α) :
    (queue.take (servedCount succeeds budget queue)).countP succeeds =
      min budget (queue.countP succeeds) := by
  induction queue generalizing budget with
  | nil => simp
  | cons x queue ih =>
      cases budget with
      | zero => simp
      | succ budget =>
          rw [servedCount_cons_of_pos succeeds (Nat.succ_pos budget)]
          cases hx : succeeds x <;> simp [hx, ih]

end HeidiKernel.Data
