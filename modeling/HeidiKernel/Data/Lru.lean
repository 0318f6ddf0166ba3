import Mathlib.Data.List.Dedup
import Mathlib.Data.List.DropRight

namespace HeidiKernel.Data.Lru

/-! Tables with a bounded number of places, where the key whose last use lies
furthest back makes room for a new one. -/

variable {κ : Type*} [DecidableEq κ] {places : Nat}

/-- The keys of a table, the one used last in front, and how many of the uses
so far found no place taken by their key. -/
structure Table (κ : Type*) (places : Nat) where
  keys : List κ
  misses : Nat
  nodup : keys.Nodup
  length_le : keys.length ≤ places

namespace Table

def empty : Table κ places where
  keys := []
  misses := 0
  nodup := List.nodup_nil
  length_le := Nat.zero_le places

def use (t : Table κ places) (key : κ) : Table κ places where
  keys := (key :: t.keys.erase key).take places
  misses := if key ∈ t.keys then t.misses else t.misses + 1
  nodup := by
    have hcons : (key :: t.keys.erase key).Nodup :=
      List.nodup_cons.mpr ⟨t.nodup.not_mem_erase, t.nodup.erase key⟩
    exact hcons.sublist (List.take_sublist places _)
  length_le := List.length_take_le places _

def after (places : Nat) (used : List κ) : Table κ places :=
  used.foldl use empty

theorem after_concat (used : List κ) (key : κ) :
    after places (used ++ [key]) = (after places used).use key :=
  List.foldl_concat use empty key used

theorem keys_use (t : Table κ places) (key : κ) :
    (t.use key).keys = (key :: t.keys.erase key).take places := rfl

theorem misses_use (t : Table κ places) (key : κ) :
    (t.use key).misses =
      if key ∈ t.keys then t.misses else t.misses + 1 := rfl

variable {t : Table κ places} {key : κ}

theorem mem_erase_iff {other : κ} :
    other ∈ t.keys.erase key ↔ other ≠ key ∧ other ∈ t.keys :=
  t.nodup.mem_erase_iff

theorem erase_sublist (t : Table κ places) (key : κ) :
    (t.keys.erase key).Sublist t.keys :=
  List.erase_sublist

omit [DecidableEq κ] in
theorem mem_dropLast_iff {first : List κ} {last other : κ}
    (hkeys : t.keys = first ++ [last]) :
    other ∈ t.keys.dropLast ↔ other ≠ last ∧ other ∈ t.keys := by
  have hnodup := t.nodup
  rw [hkeys, List.nodup_append] at hnodup
  have hlast : last ∉ first := fun hmem =>
    hnodup.2.2 last hmem last (List.mem_singleton_self last) rfl
  rw [hkeys, List.dropLast_concat, List.mem_append, List.mem_singleton,
    and_or_left]
  constructor
  · exact fun hmem => .inl ⟨fun heq => hlast (heq ▸ hmem), hmem⟩
  · rintro (⟨_, hmem⟩ | ⟨hne, heq⟩)
    · exact hmem
    · exact absurd heq hne

theorem length_erase_of_mem (hmem : key ∈ t.keys) :
    (t.keys.erase key).length + 1 = t.keys.length := by
  rw [List.length_erase_of_mem hmem]
  exact Nat.sub_add_cancel (List.length_pos_of_mem hmem)

theorem keys_use_of_mem (hmem : key ∈ t.keys) :
    (t.use key).keys = key :: t.keys.erase key := by
  refine List.take_of_length_le ?_
  rw [List.length_cons, length_erase_of_mem hmem]
  exact t.length_le

theorem keys_use_of_room (hmem : key ∉ t.keys)
    (hroom : t.keys.length < places) :
    (t.use key).keys = key :: t.keys := by
  rw [keys_use, List.erase_of_not_mem hmem]
  exact List.take_of_length_le hroom

theorem keys_use_of_full (hmem : key ∉ t.keys) (hpos : 0 < places)
    (hfull : t.keys.length = places) :
    (t.use key).keys = key :: t.keys.dropLast := by
  obtain ⟨rest, rfl⟩ := Nat.exists_eq_succ_of_ne_zero hpos.ne'
  rw [keys_use, List.erase_of_not_mem hmem, List.take_succ_cons,
    List.dropLast_eq_take, hfull]
  rfl

end Table

section Recency

theorem dedup_concat (used : List κ) (key : κ) :
    (used ++ [key]).dedup = used.dedup.erase key ++ [key] := by
  induction used with
  | nil => simp
  | cons first used ih =>
      rw [List.cons_append]
      by_cases hagain : first ∈ used
      · rw [List.dedup_cons_of_mem (List.mem_append_left _ hagain),
          List.dedup_cons_of_mem hagain, ih]
      · rw [List.dedup_cons_of_notMem hagain]
        rcases eq_or_ne first key with rfl | hne
        · rw [List.dedup_cons_of_mem (by simp), ih, List.erase_cons_head,
            List.erase_of_not_mem (mt List.mem_dedup.mp hagain)]
        · rw [List.dedup_cons_of_notMem (by simp [hagain, hne]), ih,
            List.erase_cons_tail (by simpa using hne), List.cons_append]

/-- The keys in the order of their last use, the latest in front. -/
def recency (used : List κ) : List κ :=
  used.dedup.reverse

theorem recency_concat (used : List κ) (key : κ) :
    recency (used ++ [key]) = key :: (recency used).erase key := by
  rw [recency, dedup_concat, List.reverse_concat, recency,
    used.nodup_dedup.erase_eq_filter,
    (List.nodup_reverse.mpr used.nodup_dedup).erase_eq_filter,
    List.filter_reverse]

/-- What a key in front leaves of the others is decided by the places alone. -/
theorem take_erase_take (keys : List κ) (key : κ) (places : Nat) :
    ((keys.take (places + 1)).erase key).take places =
      (keys.erase key).take places := by
  induction keys generalizing places with
  | nil => simp
  | cons first keys ih =>
      rw [List.take_succ_cons]
      rcases eq_or_ne first key with rfl | hne
      · rw [List.erase_cons_head, List.erase_cons_head, List.take_take,
          Nat.min_self]
      · rw [List.erase_cons_tail (by simpa using hne),
          List.erase_cons_tail (by simpa using hne)]
        cases places with
        | zero => rfl
        | succ places => rw [List.take_succ_cons, List.take_succ_cons, ih]

/-- A table has the keys used last, as many as there are places. -/
theorem keys_after (places : Nat) (used : List κ) :
    (Table.after places used).keys = (recency used).take places := by
  induction used using List.reverseRecOn with
  | nil => simp [Table.after, Table.empty, recency]
  | append_singleton used key ih =>
      rw [Table.after_concat, Table.keys_use, ih, recency_concat]
      cases places with
      | zero => rfl
      | succ places =>
          rw [List.take_succ_cons, List.take_succ_cons, take_erase_take]

theorem mem_keys_after {used : List κ} {key : κ} :
    key ∈ (Table.after places used).keys ↔ key ∈ used.dedup.rtake places := by
  rw [keys_after, recency, List.rtake_eq_reverse_take_reverse,
    List.mem_reverse]

end Recency

end HeidiKernel.Data.Lru
