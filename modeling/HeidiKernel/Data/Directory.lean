import Mathlib.Data.List.AList
import Mathlib.Data.List.Infix
import Mathlib.Data.List.Range

namespace HeidiKernel.Data

/-! Directories: the contents of files under their names. -/

abbrev Directory (κ : Type*) (β : Type*) := AList fun _ : κ => List β

namespace Directory

variable {κ β : Type*} [DecidableEq κ]

/-- What a file holds, or nothing if there is no such file. -/
def content (name : κ) (dir : Directory κ β) : List β :=
  (dir.lookup name).getD []

def remove (name : κ) (dir : Directory κ β) : Directory κ β := dir.erase name

/-- A file that has the new name already is replaced. -/
def rename (source target : κ) (dir : Directory κ β) : Directory κ β :=
  match dir.lookup source with
  | none => dir
  | some held => (dir.erase source).insert target held

/-- Writing at the end of a file creates it if need be. -/
def write (name : κ) (text : List β) (dir : Directory κ β) : Directory κ β :=
  dir.insert name (dir.content name ++ text)

section Lookup

variable {name other source target : κ} (dir : Directory κ β)

@[simp] theorem lookup_remove_self : (dir.remove name).lookup name = none :=
  AList.lookup_erase name dir

theorem lookup_remove_ne (h : other ≠ name) :
    (dir.remove name).lookup other = dir.lookup other :=
  AList.lookup_erase_ne h

theorem rename_of_none (h : dir.lookup source = none) (target : κ) :
    dir.rename source target = dir := by
  rw [rename, h]

theorem lookup_rename_target :
    (dir.rename source target).lookup target =
      (dir.lookup source).or (dir.lookup target) := by
  unfold rename
  cases hsource : dir.lookup source with
  | none => rfl
  | some held => exact AList.lookup_insert _

theorem lookup_rename_source (h : source ≠ target) :
    (dir.rename source target).lookup source = none := by
  unfold rename
  cases hsource : dir.lookup source with
  | none => exact hsource
  | some held =>
      exact (AList.lookup_insert_ne h).trans (AList.lookup_erase source dir)

theorem lookup_rename_ne (hsource : other ≠ source) (htarget : other ≠ target) :
    (dir.rename source target).lookup other = dir.lookup other := by
  unfold rename
  cases dir.lookup source with
  | none => rfl
  | some held =>
      exact (AList.lookup_insert_ne htarget).trans
        (AList.lookup_erase_ne hsource)

@[simp] theorem lookup_write_self (text : List β) :
    (dir.write name text).lookup name = some (dir.content name ++ text) :=
  AList.lookup_insert dir

theorem lookup_write_ne (h : other ≠ name) (text : List β) :
    (dir.write name text).lookup other = dir.lookup other :=
  AList.lookup_insert_ne h

theorem content_of_lookup {dir other : Directory κ β} {name name' : κ}
    (h : dir.lookup name = other.lookup name') :
    dir.content name = other.content name' := by
  rw [content, h, content]

end Lookup

/-- A directory whose files all bear one of a few names is no larger. -/
theorem length_keys_le (dir : Directory κ β) (names : List κ)
    (h : ∀ name, (dir.lookup name).isSome → name ∈ names) :
    dir.keys.length ≤ names.length := by
  apply List.Subperm.length_le
  apply List.subperm_of_subset dir.keys_nodup
  intro name hname
  exact h name (AList.lookup_isSome.mpr (AList.mem_keys.mpr hname))

end Directory

/-! Logs in numbered parts, of which part zero is the newest. -/

namespace Parts

variable {α β : Type*}

/-- The first `n` parts one after the other, the oldest of them first. -/
def joined : Nat → (Nat → List α) → List α
  | 0, _ => []
  | n + 1, part => part n ++ joined n part

/-- Every part is one older, and there is a new part zero. -/
def shifted (fresh : List α) (part : Nat → List α) : Nat → List α
  | 0 => fresh
  | i + 1 => part i

theorem joined_congr {n : Nat} {part other : Nat → List α}
    (h : ∀ i < n, part i = other i) : joined n part = joined n other := by
  induction n with
  | zero => rfl
  | succ n ih =>
      rw [joined, joined, h n (Nat.lt_succ_self n),
        ih fun i hi => h i (Nat.lt_succ_of_lt hi)]

theorem joined_newest (n : Nat) (part : Nat → List α) :
    joined (n + 1) part = joined n (fun i => part (i + 1)) ++ part 0 := by
  induction n with
  | zero => exact List.append_nil _
  | succ n ih => rw [joined, ih, joined, List.append_assoc]

/-- Shifting gives up the oldest part and no other. -/
theorem joined_shifted (n : Nat) (fresh : List α) (part : Nat → List α) :
    joined (n + 1) (shifted fresh part) = joined n part ++ fresh :=
  joined_newest n (shifted fresh part)

theorem joined_shifted_suffix {n : Nat} {part : Nat → List α} :
    joined n (shifted [] part) <:+ joined n part := by
  cases n with
  | zero => exact List.suffix_rfl
  | succ n =>
      rw [joined_shifted, List.append_nil, joined]
      exact List.suffix_append _ _

/-- What is added to part zero comes last. -/
theorem joined_added (n : Nat) (part : Nat → List α) (more : List α) :
    joined (n + 1) (shifted (part 0 ++ more) fun i => part (i + 1)) =
      joined (n + 1) part ++ more := by
  rw [joined_shifted, joined_newest, List.append_assoc]

theorem flatMap_joined (n : Nat) (part : Nat → List α) (f : α → List β) :
    (joined n part).flatMap f = joined n fun i => (part i).flatMap f := by
  induction n with
  | zero => rfl
  | succ n ih => rw [joined, List.flatMap_append, ih, joined]

end Parts

end HeidiKernel.Data
