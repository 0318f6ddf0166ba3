import Mathlib.Data.List.DropRight
import Mathlib.Data.List.TakeWhile

namespace HeidiKernel.Data

variable {α : Type*} {p : α → Bool} {front rest : List α}

/-! A list is cut where a predicate fails for the first time, or behind the last
place where it fails. -/

theorem head?_dropWhile (p : α → Bool) (items : List α) :
    ∀ a ∈ (items.dropWhile p).head?, p a = false := by
  intro a ha
  have hnot := List.head?_dropWhile_not p items
  rw [Option.mem_def.mp ha] at hnot
  exact hnot

theorem forall_mem_head?_cons {P : α → Prop} {a : α} {items : List α}
    (h : P a) : ∀ b ∈ (a :: items).head?, P b := by
  intro b hb
  obtain rfl : a = b := Option.some.inj hb
  exact h

section Span

variable (hfront : ∀ a ∈ front, p a = true)

include hfront

theorem takeWhile_span (hrest : ∀ a ∈ rest.head?, p a = false) :
    (front ++ rest).takeWhile p = front := by
  rw [List.takeWhile_append_of_pos hfront]
  cases rest with
  | nil => rw [List.takeWhile_nil, List.append_nil]
  | cons a rest =>
      rw [List.takeWhile_cons_of_neg (by simp [hrest a rfl]), List.append_nil]

theorem dropWhile_span (hrest : ∀ a ∈ rest.head?, p a = false) :
    (front ++ rest).dropWhile p = rest := by
  rw [List.dropWhile_append_of_pos hfront]
  cases rest with
  | nil => rfl
  | cons a rest => rw [List.dropWhile_cons_of_neg (by simp [hrest a rfl])]

theorem takeWhile_span_cons {a : α} (ha : p a = false) (rest : List α) :
    (front ++ a :: rest).takeWhile p = front :=
  takeWhile_span hfront (forall_mem_head?_cons ha)

theorem dropWhile_span_cons {a : α} (ha : p a = false) (rest : List α) :
    (front ++ a :: rest).dropWhile p = a :: rest :=
  dropWhile_span hfront (forall_mem_head?_cons ha)

/-- There is one place to cut at. -/
theorem span_unique {front' rest' : List α}
    (hrest : ∀ a ∈ rest.head?, p a = false)
    (hfront' : ∀ a ∈ front', p a = true)
    (hrest' : ∀ a ∈ rest'.head?, p a = false)
    (h : front ++ rest = front' ++ rest') : front = front' ∧ rest = rest' := by
  have htake := congrArg (List.takeWhile p) h
  have hdrop := congrArg (List.dropWhile p) h
  rw [takeWhile_span hfront hrest, takeWhile_span hfront' hrest'] at htake
  rw [dropWhile_span hfront hrest, dropWhile_span hfront' hrest'] at hdrop
  exact ⟨htake, hdrop⟩

end Span

theorem rdropWhile_span {body back : List α}
    (hback : ∀ a ∈ back, p a = true) (hne : body ≠ [])
    (hlast : p (body.getLast hne) = false) :
    (body ++ back).rdropWhile p = body := by
  induction back using List.reverseRecOn with
  | nil =>
      rw [List.append_nil]
      exact List.rdropWhile_eq_self_iff.mpr fun _ => by simp [hlast]
  | append_singleton back a ih =>
      have ha : p a = true := hback a (by simp)
      rw [← List.append_assoc, List.rdropWhile_concat_pos _ _ _ ha]
      exact ih fun b hb => hback b (by simp [hb])

end HeidiKernel.Data
