import Mathlib.Data.Fintype.Card
import Mathlib.Data.Fin.Basic

namespace HeidiKernel.Data.Slots

/-! Tables with a fixed number of slots. A slot is found by its index, and the
oldest of the slots in use can be given up. -/

variable {n : Nat}

/-- The first slot a test holds of, tried from the front. -/
def first? : {n : Nat} → (Fin n → Bool) → Option (Fin n)
  | 0, _ => none
  | _ + 1, test =>
      if test 0 then some 0 else (first? fun i => test i.succ).map Fin.succ

theorem first?_eq_find? (test : Fin n → Bool) :
    first? test = Fin.find? test := by
  induction n with
  | zero => simp [first?]
  | succ n ih => rw [first?, Fin.find?_succ, ih]

theorem first?_eq_some_iff {test : Fin n → Bool} {i : Fin n} :
    first? test = some i ↔
      test i = true ∧ ∀ j, j < i → test j = false := by
  rw [first?_eq_find?, Fin.find?_eq_some_iff]

theorem first?_eq_none_iff {test : Fin n → Bool} :
    first? test = none ↔ ∀ i, test i = false := by
  rw [first?_eq_find?, Fin.find?_eq_none_iff]

def count (inUse : Fin n → Bool) : Nat :=
  (Finset.univ.filter fun i => inUse i = true).card

theorem count_le (inUse : Fin n → Bool) : count inUse ≤ n := by
  refine (Finset.card_filter_le _ _).trans ?_
  simp

theorem count_false : count (fun _ : Fin n => false) = 0 := by
  simp [count]

theorem count_full {inUse : Fin n → Bool} (hfull : ∀ i, inUse i = true) :
    count inUse = n := by
  simp [count, hfull]

theorem count_pos_of {inUse : Fin n → Bool} {i : Fin n} (h : inUse i = true) :
    0 < count inUse :=
  Finset.card_pos.mpr ⟨i, by simp [h]⟩

theorem count_update_true {inUse : Fin n → Bool} {i : Fin n}
    (h : inUse i = false) :
    count (Function.update inUse i true) = count inUse + 1 := by
  have hinsert : (Finset.univ.filter fun j =>
      Function.update inUse i true j = true) =
      insert i (Finset.univ.filter fun j => inUse j = true) := by
    ext j
    by_cases hj : j = i
    · simp [hj]
    · simp [hj]
  rw [count, hinsert, Finset.card_insert_of_notMem (by simp [h]), count]

section Table

variable {α : Type*} (used : α → Bool) {table : Fin n → α} {i : Fin n}
  {entry : α}

theorem used_update (table : Fin n → α) (i : Fin n) (entry : α) :
    (fun j => used (Function.update table i entry j)) =
      Function.update (fun j => used (table j)) i (used entry) :=
  Function.comp_update used table i entry

theorem count_rewrite (hsame : used entry = used (table i)) :
    count (fun j => used (Function.update table i entry j)) =
      count fun j => used (table j) := by
  rw [used_update, hsame, Function.update_eq_self]

theorem count_fill (hfree : used (table i) = false)
    (hused : used entry = true) :
    count (fun j => used (Function.update table i entry j)) =
      (count fun j => used (table j)) + 1 := by
  rw [used_update, hused, count_update_true hfree]

/-- The only free slot is the first one a search for a free slot finds. -/
theorem first?_free_update (hfull : ∀ j, used (table j) = true)
    (hfree : used entry = false) :
    (first? fun j => !used (Function.update table i entry j)) = some i := by
  refine first?_eq_some_iff.mpr ⟨by simp [hfree], fun j hj => ?_⟩
  simp [Function.update_of_ne hj.ne, hfull j]

end Table

/-- A step of the search for the slot in use with the least stamp: the least
stamp so far and its slot. -/
def oldestStep (inUse : Fin n → Bool) (stamp : Fin n → Nat)
    (best : Nat × Fin n) (i : Fin n) : Nat × Fin n :=
  if inUse i ∧ stamp i < best.1 then (stamp i, i) else best

def oldestAmong (inUse : Fin n → Bool) (stamp : Fin n → Nat)
    (best : Nat × Fin n) : (k : Nat) → k ≤ n → Nat × Fin n
  | 0, _ => best
  | k + 1, h =>
      oldestStep inUse stamp
        (oldestAmong inUse stamp best k (Nat.le_of_succ_le h)) ⟨k, h⟩

/-- The search starts from the greatest possible stamp and the first slot. -/
def oldest (hn : 0 < n) (top : Nat) (inUse : Fin n → Bool)
    (stamp : Fin n → Nat) : Fin n :=
  (oldestAmong inUse stamp (top, ⟨0, hn⟩) n n.le_refl).2

theorem oldestAmong_least {inUse : Fin n → Bool} {stamp : Fin n → Nat}
    (best : Nat × Fin n) (k : Nat) (h : k ≤ n) :
    let found := oldestAmong inUse stamp best k h
    found.1 ≤ best.1 ∧
      (∀ i : Fin n, i < k → inUse i → found.1 ≤ stamp i) ∧
      (found = best ∨ stamp found.2 = found.1) := by
  induction k with
  | zero => simp [oldestAmong]
  | succ k ih =>
      obtain ⟨hle, hmin, hfound⟩ := ih (Nat.le_of_succ_le h)
      rw [oldestAmong]
      generalize oldestAmong inUse stamp best k _ = earlier at *
      by_cases hless : inUse ⟨k, h⟩ ∧ stamp ⟨k, h⟩ < earlier.1
      · rw [oldestStep, if_pos hless]
        refine ⟨hless.2.le.trans hle, fun i hi huse => ?_, .inr rfl⟩
        rcases Nat.lt_succ_iff_lt_or_eq.mp hi with hbefore | hlast
        · exact hless.2.le.trans (hmin i hbefore huse)
        · exact Nat.le_of_eq (congrArg stamp (Fin.ext hlast.symm))
      · rw [oldestStep, if_neg hless]
        refine ⟨hle, fun i hi huse => ?_, hfound⟩
        rcases Nat.lt_succ_iff_lt_or_eq.mp hi with hbefore | hlast
        · exact hmin i hbefore huse
        · obtain rfl : i = ⟨k, h⟩ := Fin.ext hlast
          exact Nat.not_lt.mp fun hlt => hless ⟨huse, hlt⟩

/-- With all slots in use none has a lesser stamp than the one found, whatever
the ties and even if all stamps are the greatest one. -/
theorem stamp_oldest_le (hn : 0 < n) {top : Nat} {inUse : Fin n → Bool}
    {stamp : Fin n → Nat} (hfull : ∀ i, inUse i = true)
    (htop : ∀ i, stamp i ≤ top) (i : Fin n) :
    stamp (oldest hn top inUse stamp) ≤ stamp i := by
  obtain ⟨_, hmin, hfound⟩ :=
    @oldestAmong_least n inUse stamp (top, ⟨0, hn⟩) n n.le_refl
  have hle := hmin i i.isLt (hfull i)
  rcases hfound with hsame | hstamp
  · rw [hsame] at hle
    exact (htop _).trans hle
  · rw [oldest, hstamp]
    exact hle

end HeidiKernel.Data.Slots
