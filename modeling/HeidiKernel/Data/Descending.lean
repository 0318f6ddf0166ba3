import HeidiKernel.Data.Keyed
import Mathlib.Data.List.Sort

namespace HeidiKernel.Data

/-! Sorting by keys, the greatest in front. -/

/-- A sort that is not stable: elements with the same key come in any order. -/
structure Descending {α κ : Type*} [LinearOrder κ] (key : α → κ) where
  sort : List α → List α
  perm : ∀ xs, (sort xs).Perm xs
  sorted : ∀ xs, (sort xs).Pairwise fun a b => key b ≤ key a

namespace Descending

variable {α κ τ : Type*} [LinearOrder κ] [LinearOrder τ] {key : α → κ}

/-- Of elements with the same key the one with the smaller tag comes first. -/
def comesFirst (key : α → κ) (tag : α → τ) (a b : α) : Bool :=
  key b < key a ∨ key b = key a ∧ tag a ≤ tag b

theorem pairwise_comesFirst (key : α → κ) (tag : α → τ) (xs : List α) :
    (xs.mergeSort (comesFirst key tag)).Pairwise fun a b =>
      comesFirst key tag a b := by
  refine List.pairwise_mergeSort ?_ ?_ xs
  · grind [comesFirst]
  · grind [comesFirst]

def breakTies (key : α → κ) (tag : α → τ) : Descending key where
  sort xs := xs.mergeSort (comesFirst key tag)
  perm xs := List.mergeSort_perm xs _
  sorted xs := (pairwise_comesFirst key tag xs).imp fun h => by
    grind [comesFirst]

theorem tag_le_breakTies (key : α → κ) (tag : α → τ) (xs : List α) :
    ((breakTies key tag).sort xs).Pairwise fun a b =>
      key b = key a → tag a ≤ tag b :=
  (pairwise_comesFirst key tag xs).imp fun h => by grind [comesFirst]

/-- What is left out of the first elements has no greater key than they. -/
theorem key_le_of_mem_take (sorting : Descending key) {xs : List α} {n : Nat}
    {a b : α} (ha : a ∈ (sorting.sort xs).take n) (hb : b ∈ xs)
    (hout : b ∉ (sorting.sort xs).take n) : key b ≤ key a := by
  have hsorted := sorting.sorted xs
  have hmem : b ∈ sorting.sort xs := (sorting.perm xs).mem_iff.mpr hb
  rw [← List.take_append_drop n (sorting.sort xs)] at hsorted hmem
  have hrest := (List.mem_append.mp hmem).resolve_left hout
  exact (List.pairwise_append.mp hsorted).2.2 a ha b hrest

/-- There is one way only to sort elements with different keys. -/
theorem eq_of_strict (key : α → κ) {xs ys : List α} (hperm : xs.Perm ys)
    (hxs : xs.Pairwise fun a b => key b ≤ key a)
    (hys : ys.Pairwise fun a b => key b < key a) : xs = ys := by
  have hnodup : (ys.map key).Nodup :=
    List.Pairwise.map key (fun _ _ hlt => ne_of_gt hlt) hys
  refine hperm.eq_of_pairwise ?_ hxs (hys.imp le_of_lt)
  intro a b ha hb hle hge
  exact Keyed.eq_of_key_eq hnodup (hperm.mem_iff.mp ha) hb
    (le_antisymm hge hle)

/-- Where every sort gives the same order, no two elements have the same key. -/
theorem strict_of_unique {tag : α → τ} {xs : List α} {tags : List τ}
    (hnodup : (xs.map tag).Nodup)
    (hunique : ∀ sorting : Descending key, (sorting.sort xs).map tag = tags)
    (sorting : Descending key) :
    (sorting.sort xs).Pairwise fun a b => key b < key a := by
  have hsame : ∀ other : Descending key, other.sort xs = sorting.sort xs := by
    intro other
    have hperm := (other.perm xs).trans (sorting.perm xs).symm
    refine Keyed.eq_of_perm hperm ?_
      (((other.perm xs).map tag).nodup_iff.mpr hnodup)
    rw [hunique, hunique]
  have hrising := tag_le_breakTies key tag xs
  have hfalling := tag_le_breakTies key (OrderDual.toDual ∘ tag) xs
  rw [hsame] at hrising hfalling
  have hdistinct : (sorting.sort xs).Pairwise fun a b => tag a ≠ tag b :=
    List.pairwise_map.mp (((sorting.perm xs).map tag).nodup_iff.mpr hnodup)
  have hall := ((sorting.sorted xs).and hdistinct).and
    (hrising.and hfalling)
  refine hall.imp ?_
  rintro a b ⟨⟨hle, hne⟩, hrise, hfall⟩
  refine lt_of_le_of_ne hle fun htie => hne ?_
  exact le_antisymm (hrise htie) (OrderDual.toDual_le_toDual.mp (hfall htie))

end Descending

end HeidiKernel.Data
