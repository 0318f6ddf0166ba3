import HeidiKernel.Transition.Traced
import Mathlib.Data.List.Nodup
import Mathlib.Data.List.Perm.Subperm

namespace HeidiKernel.Data.Keyed

open HeidiKernel.Transition

/-! Tables of objects kept as a list, each object reachable through its key. A
reference to an object is its key, so an update through a reference is seen by
everyone who reads the table. -/

variable {κ : Type*} {α : Type u} {ε : Type v} [DecidableEq κ] (key : α → κ)

def lookup? (k : κ) (table : List α) : Option α :=
  table.find? fun x => key x = k

/-- Replace the object `k` refers to by what `f` makes of it. -/
def modify (f : α → Traced ε α) (k : κ) (table : List α) :
    Traced ε (List α) :=
  match lookup? key k table with
  | none => pure table
  | some x => do
      let y ← f x
      pure (table.map fun z => if key z = k then y else z)

/-- Run `f` on the objects of the given references, one after the other. -/
def modifyAll (f : α → Traced ε α) : List κ → List α → Traced ε (List α)
  | [], table => pure table
  | k :: ks, table => do
      let next ← modify key f k table
      modifyAll f ks next

variable {key}

theorem lookup?_sound {k : κ} {table : List α} {x : α}
    (h : lookup? key k table = some x) : x ∈ table ∧ key x = k :=
  ⟨List.mem_of_find?_eq_some h, by simpa using List.find?_some h⟩

omit [DecidableEq κ] in
theorem eq_of_key_eq {table : List α} (hnodup : (table.map key).Nodup)
    {x y : α} (hx : x ∈ table) (hy : y ∈ table) (h : key x = key y) : x = y :=
  List.inj_on_of_nodup_map hnodup hx hy h

omit [DecidableEq κ] in
/-- A table without duplicate keys is determined by its objects and the order
of its keys. -/
theorem eq_of_perm {xs ys : List α} (hperm : xs.Perm ys)
    (hkeys : xs.map key = ys.map key) (hnodup : (xs.map key).Nodup) :
    xs = ys := by
  induction xs generalizing ys with
  | nil => exact (List.map_eq_nil_iff.mp hkeys.symm).symm
  | cons x xs ih =>
      cases ys with
      | nil => contradiction
      | cons y ys =>
          obtain ⟨hkey, hrest⟩ := List.cons_eq_cons.mp hkeys
          obtain rfl : x = y := eq_of_key_eq hnodup List.mem_cons_self
            (hperm.mem_iff.mpr List.mem_cons_self) hkey
          rw [ih (List.perm_cons x |>.mp hperm) hrest
            (List.nodup_cons.mp hnodup).2]

theorem lookup?_of_mem {table : List α} (hnodup : (table.map key).Nodup)
    {x : α} (hx : x ∈ table) : lookup? key (key x) table = some x := by
  cases hfind : lookup? key (key x) table with
  | none =>
      have := List.find?_eq_none.mp hfind x hx
      simp at this
  | some y =>
      obtain ⟨hy, hkey⟩ := lookup?_sound hfind
      rw [eq_of_key_eq hnodup hy hx hkey]

theorem lookup?_eq_none {k : κ} {table : List α} :
    lookup? key k table = none ↔ k ∉ table.map key := by
  simp [lookup?, List.find?_eq_none]

/-- What a key refers to does not depend on the order of the table. -/
theorem lookup?_eq_of_perm {xs ys : List α} (hperm : xs.Perm ys)
    (hnodup : (xs.map key).Nodup) (k : κ) :
    lookup? key k xs = lookup? key k ys := by
  cases hfind : lookup? key k ys with
  | none =>
      rw [lookup?_eq_none, (hperm.map key).mem_iff]
      exact lookup?_eq_none.mp hfind
  | some y =>
      obtain ⟨hy, rfl⟩ := lookup?_sound hfind
      exact lookup?_of_mem hnodup (hperm.mem_iff.mpr hy)

/-- On a table without duplicate keys an update touches exactly its object. -/
theorem value_modify {f : α → Traced ε α} {k : κ} {table : List α}
    (hnodup : (table.map key).Nodup) :
    (modify key f k table).value =
      table.map fun x => if key x = k then (f x).value else x := by
  unfold modify
  cases hfind : lookup? key k table with
  | none =>
      have habsent := lookup?_eq_none.mp hfind
      have hsame : table.map (fun x => if key x = k then (f x).value else x) =
          table.map id := by
        apply List.map_congr_left
        intro x hx
        apply if_neg
        rintro rfl
        exact habsent (List.mem_map_of_mem hx)
      rw [hsame, List.map_id]
      rfl
  | some y =>
      obtain ⟨hy, rfl⟩ := lookup?_sound hfind
      apply List.map_congr_left
      intro x hx
      split
      · rename_i hkey
        rw [eq_of_key_eq hnodup hx hy hkey]
      · rfl

theorem events_modify {f : α → Traced ε α} {table : List α}
    (hnodup : (table.map key).Nodup) {x : α} (hx : x ∈ table) :
    (modify key f (key x) table).events = (f x).events := by
  simp [modify, lookup?_of_mem hnodup hx]

/-- An update only logs events of the object it is applied to. -/
theorem owner_of_mem_events_modify {f : α → Traced ε α} (owner : ε → κ)
    (howner : ∀ x, ∀ e ∈ (f x).events, owner e = key x) {k : κ}
    {table : List α} {e : ε} (he : e ∈ (modify key f k table).events) :
    owner e = k ∧ k ∈ table.map key := by
  unfold modify at he
  cases hfind : lookup? key k table with
  | none => simp [hfind] at he
  | some x =>
      obtain ⟨hx, rfl⟩ := lookup?_sound hfind
      simp only [hfind, Traced.events_bind, Traced.events_pure,
        List.append_nil] at he
      exact ⟨howner x e he, List.mem_map_of_mem hx⟩

section KeyPreserving

variable {f : α → Traced ε α} (hkey : ∀ x, key (f x).value = key x)

include hkey

theorem keys_modify (k : κ) {table : List α}
    (hnodup : (table.map key).Nodup) :
    (modify key f k table).value.map key = table.map key := by
  rw [value_modify hnodup, List.map_map]
  apply List.map_congr_left
  intro x _
  by_cases h : key x = k <;> simp [h, hkey]

/-- A pass over distinct references updates each of their objects once. -/
theorem value_modifyAll {ks : List κ} (hks : ks.Nodup) {table : List α}
    (hnodup : (table.map key).Nodup) :
    (modifyAll key f ks table).value =
      table.map fun x => if key x ∈ ks then (f x).value else x := by
  induction ks generalizing table with
  | nil => simp [modifyAll]
  | cons k ks ih =>
      obtain ⟨hk, hrest⟩ := List.nodup_cons.mp hks
      have hkeys := keys_modify hkey k hnodup
      simp only [modifyAll, Traced.value_bind]
      rw [ih hrest (by rw [hkeys]; exact hnodup), value_modify hnodup,
        List.map_map]
      apply List.map_congr_left
      intro x _
      by_cases h : key x = k
      · subst h
        simp [hkey, hk]
      · simp [h]

theorem keys_modifyAll {ks : List κ} (hks : ks.Nodup) {table : List α}
    (hnodup : (table.map key).Nodup) :
    (modifyAll key f ks table).value.map key = table.map key := by
  rw [value_modifyAll hkey hks hnodup, List.map_map]
  apply List.map_congr_left
  intro x _
  by_cases h : key x ∈ ks <;> simp [h, hkey]

theorem owner_of_mem_events_modifyAll (owner : ε → κ)
    (howner : ∀ x, ∀ e ∈ (f x).events, owner e = key x) {ks : List κ}
    {table : List α} (hnodup : (table.map key).Nodup) {e : ε}
    (he : e ∈ (modifyAll key f ks table).events) :
    owner e ∈ table.map key := by
  induction ks generalizing table with
  | nil => simp [modifyAll] at he
  | cons k ks ih =>
      have hkeys := keys_modify hkey k hnodup
      rcases List.mem_append.mp he with hfirst | hrest
      · obtain ⟨hk, hmem⟩ := owner_of_mem_events_modify owner howner hfirst
        rw [hk]
        exact hmem
      · rw [← hkeys]
        exact ih (by rw [hkeys]; exact hnodup) hrest

/-- The events of a pass that belong to one object are those of its own
update. -/
theorem events_modifyAll_filter (owner : ε → κ)
    (howner : ∀ x, ∀ e ∈ (f x).events, owner e = key x)
    {ks : List κ} (hks : ks.Nodup) {table : List α}
    (hnodup : (table.map key).Nodup) (hmem : ∀ k ∈ ks, k ∈ table.map key)
    {x : α} (hx : x ∈ table) :
    (modifyAll key f ks table).events.filter (fun e => owner e = key x) =
      if key x ∈ ks then (f x).events else [] := by
  induction ks generalizing table x with
  | nil => simp [modifyAll]
  | cons k ks ih =>
      obtain ⟨hk, hrest⟩ := List.nodup_cons.mp hks
      have hkeys := keys_modify hkey k hnodup
      obtain ⟨y, hy, rfl⟩ := List.mem_map.mp (hmem k (by simp))
      have htail : ∀ z, z ∈ (modify key f (key y) table).value →
          (modifyAll key f ks (modify key f (key y) table).value).events.filter
            (fun e => owner e = key z) =
          if key z ∈ ks then (f z).events else [] := fun z hz =>
        ih hrest (by rw [hkeys]; exact hnodup)
          (fun k' hk' => by rw [hkeys]; exact hmem k' (by simp [hk'])) hz
      simp only [modifyAll, Traced.events_bind, List.filter_append,
        events_modify hnodup hy]
      by_cases h : key x = key y
      · have hxy : x = y := eq_of_key_eq hnodup hx hy h
        subst hxy
        have hx' : (f x).value ∈ (modify key f (key x) table).value := by
          rw [value_modify hnodup]
          exact List.mem_map.mpr ⟨x, hx, by simp⟩
        have hself := htail _ hx'
        rw [hkey] at hself
        rw [hself, List.filter_eq_self.mpr
          (by intro e he; simpa using howner x e he)]
        simp [hk]
      · have hx' : x ∈ (modify key f (key y) table).value := by
          rw [value_modify hnodup]
          exact List.mem_map.mpr ⟨x, hx, by simp [h]⟩
        have hother : (f y).events.filter (fun e => owner e = key x) = [] := by
          rw [List.filter_eq_nil_iff]
          intro e he
          simp [howner y e he, Ne.symm h]
        rw [hother, htail x hx']
        simp [h]

/-- If `f` contributes to a projection of the log what its key says, a pass
contributes what its references say, in their order. -/
theorem filterMap_events_modifyAll {γ : Type*} (project : ε → Option γ)
    (out : κ → List γ)
    (hout : ∀ x, (f x).events.filterMap project = out (key x)) {ks : List κ}
    {table : List α} (hnodup : (table.map key).Nodup)
    (hmem : ∀ k ∈ ks, k ∈ table.map key) :
    (modifyAll key f ks table).events.filterMap project = ks.flatMap out := by
  induction ks generalizing table with
  | nil => rfl
  | cons k ks ih =>
      have hkeys := keys_modify hkey k hnodup
      obtain ⟨x, hx, rfl⟩ := List.mem_map.mp (hmem k (by simp))
      have hrest := @ih (modify key f (key x) table).value
        (by rw [hkeys]; exact hnodup)
        (fun k' hk' => by rw [hkeys]; exact hmem k' (by simp [hk']))
      simp only [modifyAll, Traced.events_bind, List.filterMap_append,
        events_modify hnodup hx, hout, hrest, List.flatMap_cons]

end KeyPreserving

/-- Distinct references count at most as often as their objects do. -/
theorem countP_mem_le {ks : List κ} {table : List α}
    (hnodup : (table.map key).Nodup) (p : κ → Bool) :
    table.countP (fun x => decide (key x ∈ ks) && p (key x)) ≤ ks.countP p := by
  have hsub : (table.map key).filter (fun k => decide (k ∈ ks) && p k) ⊆
      ks.filter p := by
    intro k hk
    simp only [List.mem_filter, Bool.and_eq_true, decide_eq_true_eq] at hk ⊢
    exact hk.2
  have hlength := (List.subperm_of_subset (hnodup.filter _) hsub).length_le
  rw [← List.countP_eq_length_filter, ← List.countP_eq_length_filter,
    List.countP_map] at hlength
  exact hlength

/-- A property that implies another one and fails of an object that has it
counts fewer objects. -/
theorem countP_lt {xs : List α} {p q : α → Bool} (h : ∀ x ∈ xs, p x → q x)
    {x : α} (hx : x ∈ xs) (hq : q x) (hp : p x = false) :
    xs.countP p < xs.countP q := by
  induction hx with
  | head xs =>
      have hrest := List.countP_mono_left (List.forall_mem_cons.mp h).2
      simp only [List.countP_cons, hp, hq, if_true, Bool.false_eq_true,
        if_false]
      omega
  | tail y _ ih =>
      obtain ⟨hhead, htail⟩ := List.forall_mem_cons.mp h
      have hrest := ih htail
      simp only [List.countP_cons]
      cases hcase : p y with
      | true =>
          rw [hhead hcase]
          omega
      | false =>
          simp only [Bool.false_eq_true, if_false]
          omega

end HeidiKernel.Data.Keyed
