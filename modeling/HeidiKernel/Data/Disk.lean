import Mathlib.Data.List.Basic
import Mathlib.Logic.Function.Basic

namespace HeidiKernel.Data

open Function (update)

/-! Disks that may lose what was written last. A table of names refers to
inodes. After a crash the directory has any of the tables it had since the last
crash, and an inode still holds what it held if it was synced after the last
write to it, and anything otherwise. -/

@[ext] structure Names (κ : Type*) where
  inode? : κ → Option Nat
  distinct : ∀ name other i, inode? name = some i → inode? other = some i →
    name = other

namespace Names

variable {κ : Type*} [DecidableEq κ] (names : Names κ)

def add (name : κ) (i : Nat) (h : ∀ other, names.inode? other ≠ some i) :
    Names κ where
  inode? := update names.inode? name (some i)
  distinct := by
    intro first second j hfirst hsecond
    rcases eq_or_ne first name with hf | hf <;>
      rcases eq_or_ne second name with hs | hs
    · rw [hf, hs]
    · rw [hf, Function.update_self] at hfirst
      rw [Function.update_of_ne hs, ← hfirst] at hsecond
      exact absurd hsecond (h second)
    · rw [hs, Function.update_self] at hsecond
      rw [Function.update_of_ne hf, ← hsecond] at hfirst
      exact absurd hfirst (h first)
    · rw [Function.update_of_ne hf] at hfirst
      rw [Function.update_of_ne hs] at hsecond
      exact names.distinct first second j hfirst hsecond

def erase (name : κ) : Names κ where
  inode? := update names.inode? name none
  distinct := by
    intro first second i hfirst hsecond
    rcases eq_or_ne first name with rfl | hf
    · simp at hfirst
    · rcases eq_or_ne second name with rfl | hs
      · simp at hsecond
      · rw [Function.update_of_ne hf] at hfirst
        rw [Function.update_of_ne hs] at hsecond
        exact names.distinct first second i hfirst hsecond

theorem inode?_add (name : κ) (i : Nat)
    (h : ∀ other, names.inode? other ≠ some i) :
    (names.add name i h).inode? = update names.inode? name (some i) := rfl

theorem inode?_erase (name : κ) :
    (names.erase name).inode? = update names.inode? name none := rfl

theorem erase_ne {source : κ} {i : Nat} (h : names.inode? source = some i)
    (other : κ) : (names.erase source).inode? other ≠ some i := by
  intro hother
  rcases eq_or_ne other source with rfl | hne
  · simp [inode?_erase] at hother
  · rw [inode?_erase, Function.update_of_ne hne] at hother
    exact hne (names.distinct other source i hother h)

/-- Whatever the target referred to is given up. -/
def move (source target : κ) {i : Nat} (h : names.inode? source = some i) :
    Names κ :=
  (names.erase source).add target i (names.erase_ne h)

theorem inode?_move (source target : κ) {i : Nat}
    (h : names.inode? source = some i) :
    (names.move source target h).inode? =
      update (update names.inode? source none) target (some i) := rfl

end Names

structure Inode (β : Type*) where
  content : List β := []
  synced : Bool := true

structure Disk (κ β : Type*) where
  names : Names κ
  past : List (Names κ) := []
  inodes : Nat → Inode β
  next : Nat
  allocated : ∀ table ∈ names :: past, ∀ name i, table.inode? name = some i →
    i < next

/-- What a crash leaves: one of the tables, counted from the newest, and what
is found in the inodes that were not synced. -/
structure Survivors (β : Type*) where
  table : Nat
  found : Nat → List β

namespace Disk

variable {κ β : Type*}

def tables (d : Disk κ β) : List (Names κ) := d.names :: d.past

def contentOf (d : Disk κ β) (table : Names κ) (name : κ) :
    Option (List β) :=
  (table.inode? name).map fun i => (d.inodes i).content

/-- The files as they are read, as long as there is no crash. -/
def view (d : Disk κ β) : κ → Option (List β) := d.contentOf d.names

def setInode (i : Nat) (inode : Inode β) (d : Disk κ β) : Disk κ β :=
  { d with inodes := update d.inodes i inode }

/-- A change of the directory. The table before it may come back. -/
def commit (names : Names κ) (next : Nat) (d : Disk κ β)
    (hnext : d.next ≤ next)
    (hnames : ∀ name i, names.inode? name = some i → i < next) : Disk κ β where
  names := names
  past := d.names :: d.past
  inodes := d.inodes
  next := next
  allocated := by
    intro table htable name i hname
    rcases List.mem_cons.mp htable with rfl | hold
    · exact hnames name i hname
    · exact Nat.lt_of_lt_of_le (d.allocated table hold name i hname) hnext

theorem fresh_next (d : Disk κ β) (name : κ) :
    d.names.inode? name ≠ some d.next := by
  intro h
  exact Nat.lt_irrefl _ (d.allocated d.names List.mem_cons_self name _ h)

/-- The directory and the inodes after a loss of power. -/
def crash (survivors : Survivors β) (d : Disk κ β) : Disk κ β where
  names := (d.tables[survivors.table]?).getD d.names
  past := []
  inodes i :=
    if (d.inodes i).synced then d.inodes i else ⟨survivors.found i, true⟩
  next := d.next
  allocated := by
    intro table htable
    rw [List.mem_singleton] at htable
    subst htable
    cases hget : d.tables[survivors.table]? with
    | none => exact d.allocated d.names List.mem_cons_self
    | some table => exact d.allocated table (List.mem_of_getElem? hget)

def append (name : κ) (text : List β) (d : Disk κ β) : Disk κ β :=
  match d.names.inode? name with
  | some i => d.setInode i ⟨(d.inodes i).content ++ text, false⟩
  | none => d

def sync (name : κ) (d : Disk κ β) : Disk κ β :=
  match d.names.inode? name with
  | some i => d.setInode i { d.inodes i with synced := true }
  | none => d

theorem synced_sync {d : Disk κ β} {name : κ} {i : Nat}
    (h : (d.sync name).names.inode? name = some i) :
    ((d.sync name).inodes i).synced := by
  unfold sync at h ⊢
  cases hname : d.names.inode? name with
  | none =>
      rw [hname] at h
      exact absurd (hname.symm.trans h) (by simp)
  | some j =>
      rw [hname] at h
      obtain rfl : j = i := Option.some.inj (hname.symm.trans h)
      simp [setInode]

section Names

variable [DecidableEq κ]

def create (name : κ) (d : Disk κ β) : Disk κ β :=
  d.commit (d.names.add name d.next d.fresh_next) (d.next + 1)
    (Nat.le_succ _) <| by
      intro other i hother
      rcases eq_or_ne other name with rfl | hne
      · rw [Names.inode?_add, Function.update_self, Option.some.injEq]
          at hother
        omega
      · rw [Names.inode?_add, Function.update_of_ne hne] at hother
        have := d.allocated d.names List.mem_cons_self other i hother
        omega

def truncate (name : κ) (d : Disk κ β) : Disk κ β :=
  match d.names.inode? name with
  | some i => d.setInode i ⟨[], false⟩
  | none => (d.create name).setInode d.next ⟨[], false⟩

def rename (source target : κ) (d : Disk κ β) : Disk κ β :=
  match h : d.names.inode? source with
  | some i => d.commit (d.names.move source target h) d.next (Nat.le_refl _) <| by
      intro other j hother
      rcases eq_or_ne other target with rfl | hne
      · rw [Names.inode?_move, Function.update_self] at hother
        exact d.allocated d.names List.mem_cons_self source j (h.trans hother)
      · rw [Names.inode?_move, Function.update_of_ne hne] at hother
        rcases eq_or_ne other source with rfl | hsource
        · simp at hother
        · rw [Function.update_of_ne hsource] at hother
          exact d.allocated d.names List.mem_cons_self other j hother
  | none => d

/-! The files as they are read: each call changes what its names refer to and
nothing else. -/

theorem view_setInode (d : Disk κ β) {name : κ} {i : Nat}
    (h : d.names.inode? name = some i) (inode : Inode β) :
    (d.setInode i inode).view = update d.view name (some inode.content) := by
  funext other
  rcases eq_or_ne other name with rfl | hne
  · simp [view, contentOf, setInode, h]
  · rw [Function.update_of_ne hne]
    cases hother : d.names.inode? other with
    | none => simp [view, contentOf, setInode, hother]
    | some j =>
        have hij : j ≠ i := by
          rintro rfl
          exact hne (d.names.distinct other name j hother h)
        simp [view, contentOf, setInode, hother, hij]

theorem view_truncate (name : κ) (d : Disk κ β) :
    (d.truncate name).view = update d.view name (some []) := by
  unfold truncate
  cases hname : d.names.inode? name with
  | some i => exact d.view_setInode hname _
  | none =>
      have hself : (d.create name).names.inode? name = some d.next :=
        Function.update_self ..
      rw [view_setInode _ hself]
      funext other
      rcases eq_or_ne other name with rfl | hne
      · simp
      · simp [Function.update_of_ne hne, view, contentOf, create, commit,
          Names.inode?_add]

theorem view_append (name : κ) (text : List β) (d : Disk κ β) :
    (d.append name text).view =
      update d.view name ((d.view name).map (· ++ text)) := by
  unfold append
  cases hname : d.names.inode? name with
  | some i =>
      rw [view_setInode d hname]
      simp [view, contentOf, hname]
  | none => simp [view, contentOf, hname]

@[simp] theorem view_sync (name : κ) (d : Disk κ β) :
    (d.sync name).view = d.view := by
  unfold sync
  cases hname : d.names.inode? name with
  | some i =>
      rw [view_setInode d hname]
      funext other
      rcases eq_or_ne other name with rfl | hne
      · simp [view, contentOf, hname]
      · rw [Function.update_of_ne hne]
  | none => rfl

theorem view_rename {source target : κ} (d : Disk κ β) :
    (d.rename source target).view =
      if (d.view source).isSome then
        update (update d.view source none) target (d.view source)
      else d.view := by
  unfold rename
  split
  case h_1 i hsource =>
    have hsome : (d.view source).isSome := by
      simp [view, contentOf, hsource]
    rw [if_pos hsome]
    funext other
    rcases eq_or_ne other target with rfl | hne
    · simp [view, contentOf, commit, Names.inode?_move, hsource]
    · rw [Function.update_of_ne hne]
      rcases eq_or_ne other source with rfl | hsource'
      · simp [view, contentOf, commit, Names.inode?_move, hne]
      · simp [view, contentOf, commit, Names.inode?_move, hne, hsource']
  case h_2 hnone =>
    simp [view, contentOf, hnone]

end Names

/-! Writing aside. A file is replaced by one that was written under another
name, so that no crash finds it half written. -/

/-- Whatever table a crash brings back, the file is good in it, will be found
as it is now, and is not the one that is being written. -/
structure Guards (d : Disk κ β) (path temp : κ) (P : Option (List β) → Prop) :
    Prop where
  good : ∀ table ∈ d.tables, P (d.contentOf table path)
  synced : ∀ table ∈ d.tables, ∀ i, table.inode? path = some i →
    (d.inodes i).synced
  apart : ∀ table ∈ d.tables, ∀ i, table.inode? path = some i →
    d.names.inode? temp ≠ some i

structure Settled (d : Disk κ β) : Prop where
  past : d.past = []
  synced : ∀ i, (d.inodes i).synced

def empty : Disk κ β where
  names := ⟨fun _ => none, fun _ _ _ h => nomatch h⟩
  inodes _ := {}
  next := 0
  allocated := by simp

theorem settled_empty : (empty : Disk κ β).Settled := ⟨rfl, fun _ => rfl⟩

theorem Settled.guards {d : Disk κ β} (h : d.Settled) {path temp : κ}
    (hne : path ≠ temp) : d.Guards path temp fun content =>
      content = d.view path := by
  have htables : d.tables = [d.names] := congrArg (List.cons _) h.past
  refine ⟨?_, ?_, ?_⟩
  · rw [htables, List.forall_mem_singleton]
    rfl
  · intro _ _ i _
    exact h.synced i
  · rw [htables, List.forall_mem_singleton]
    intro i hpath htemp
    exact hne (d.names.distinct path temp i hpath htemp)

namespace Guards

variable {d : Disk κ β} {path temp : κ} {P Q : Option (List β) → Prop}

theorem mono (h : d.Guards path temp P) (hPQ : ∀ content, P content → Q content) :
    d.Guards path temp Q :=
  { h with good := fun table htable => hPQ _ (h.good table htable) }

section

variable (h : d.Guards path temp P)

include h

theorem view : P (d.view path) :=
  h.good d.names List.mem_cons_self

theorem setInode {i : Nat} (hi : d.names.inode? temp = some i)
    (inode : Inode β) : (d.setInode i inode).Guards path temp P where
  good table htable := by
    have hgood := h.good table htable
    cases hpath : table.inode? path with
    | none => simpa [contentOf, hpath] using hgood
    | some j =>
        have hne : j ≠ i := by
          rintro rfl
          exact h.apart table htable j hpath hi
        simpa [contentOf, Disk.setInode, hpath, hne] using hgood
  synced table htable j hpath := by
    have hne : j ≠ i := by
      rintro rfl
      exact h.apart table htable j hpath hi
    simpa [Disk.setInode, hne] using h.synced table htable j hpath
  apart := h.apart

theorem append (text : List β) : (d.append temp text).Guards path temp P := by
  unfold Disk.append
  cases htemp : d.names.inode? temp with
  | some i => exact h.setInode htemp _
  | none => exact h

theorem sync : (d.sync temp).Guards path temp P := by
  unfold Disk.sync
  cases htemp : d.names.inode? temp with
  | some i => exact h.setInode htemp _
  | none => exact h

variable (hne : path ≠ temp)

include hne

theorem crash (survivors : Survivors β) :
    (d.crash survivors).Guards path temp P := by
  obtain ⟨table, htable, hpicked⟩ : ∃ table ∈ d.tables,
      (d.crash survivors).names = table := by
    cases hget : d.tables[survivors.table]? with
    | none => exact ⟨d.names, List.mem_cons_self, by simp [Disk.crash, hget]⟩
    | some table =>
        exact ⟨table, List.mem_of_getElem? hget, by simp [Disk.crash, hget]⟩
  have htables : (d.crash survivors).tables = [table] :=
    congrArg (List.cons · []) hpicked
  refine ⟨?_, ?_, ?_⟩
  · rw [htables, List.forall_mem_singleton]
    have hgood := h.good table htable
    cases hpath : table.inode? path with
    | none => simpa [contentOf, hpath] using hgood
    | some i =>
        have hsynced := h.synced table htable i hpath
        simpa [contentOf, Disk.crash, hpath, hsynced] using hgood
  · rw [htables, List.forall_mem_singleton]
    intro i hpath
    have hsynced := h.synced table htable i hpath
    simp [Disk.crash, hsynced]
  · rw [htables, List.forall_mem_singleton, hpicked]
    intro i hpath htemp
    exact hne (table.distinct path temp i hpath htemp)

variable [DecidableEq κ]

theorem create : (d.create temp).Guards path temp P where
  good := by
    refine List.forall_mem_cons.mpr ⟨?_, h.good⟩
    have hsame : (d.create temp).contentOf (d.create temp).names path =
        d.contentOf d.names path := by
      simp [contentOf, Disk.create, commit, Names.inode?_add, hne]
    rw [hsame]
    exact h.view
  synced := by
    refine List.forall_mem_cons.mpr ⟨?_, h.synced⟩
    intro i hpath
    apply h.synced d.names List.mem_cons_self i
    simpa [Disk.create, commit, Names.inode?_add, hne] using hpath
  apart := by
    have hself : (d.create temp).names.inode? temp = some d.next :=
      Function.update_self ..
    intro table htable i hpath hi
    obtain rfl : d.next = i := Option.some.inj (hself.symm.trans hi)
    rcases List.mem_cons.mp htable with rfl | hold
    · apply d.fresh_next path
      simpa [Disk.create, commit, Names.inode?_add, hne] using hpath
    · exact Nat.lt_irrefl _ (d.allocated table hold path _ hpath)

theorem truncate : (d.truncate temp).Guards path temp P := by
  unfold Disk.truncate
  cases htemp : d.names.inode? temp with
  | some i => exact h.setInode htemp _
  | none => exact (h.create hne).setInode (Function.update_self ..) _

/-- The new file takes the place of the old one once it is good and synced. -/
theorem rename (hgood : P (d.view temp))
    (hsynced : ∀ i, d.names.inode? temp = some i → (d.inodes i).synced) :
    (d.rename temp path).Guards path temp P := by
  unfold Disk.rename
  split
  case h_1 i htemp =>
    have hpath : (d.names.move temp path htemp).inode? path = some i :=
      Function.update_self ..
    refine ⟨List.forall_mem_cons.mpr ⟨?_, h.good⟩,
      List.forall_mem_cons.mpr ⟨?_, h.synced⟩, ?_⟩
    · simpa [Disk.view, contentOf, commit, hpath, htemp] using hgood
    · intro j hj
      obtain rfl : i = j := Option.some.inj (hpath.symm.trans hj)
      exact hsynced i htemp
    · intro table _ j _
      simp [commit, Names.inode?_move, Function.update_of_ne hne.symm]
  case h_2 => exact h

end

end Guards

end Disk

end HeidiKernel.Data
