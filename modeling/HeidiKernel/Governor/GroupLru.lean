import HeidiKernel.Data.Lru
import HeidiKernel.Governor.GroupTable
import Mathlib.Data.UInt

namespace HeidiKernel.Gov

open HeidiKernel.Data
open HeidiKernel.Transition

/-! The groups in the store are those updated last, if the clock advances from
each update to the next. -/

/-- The id a message names, if `upsertGroup` takes the message. -/
def GroupApplyMsg.taken (msg : GroupApplyMsg) : Option Bytes :=
  (msg.group.filter fun gid => gid.length ≤ kMaxGroupIdLen).map CString.text

namespace GroupPolicyStore

theorem upsertGroup_succeeds {groupId gid : Bytes} {msg : GroupApplyMsg}
    {clock : UInt64} {s : GroupPolicyStore} (hgroup : msg.group = some gid)
    (hlength : gid.length ≤ kMaxGroupIdLen) :
    (s.upsertGroup groupId msg clock).1 = true := by
  rw [upsertGroup, hgroup]
  dsimp only
  rw [if_neg (Nat.not_lt.mpr hlength)]
  cases s.findGroup? gid with
  | some i => rfl
  | none =>
      cases hfree : s.freeGroup? with
      | some i => rfl
      | none =>
          have hevicted := freeGroup?_evicted (freeGroup?_eq_none hfree)
          rw [evicted] at hevicted
          simp only [hevicted]

theorem upserted_of_taken (groupId : Bytes) {id : Bytes} {msg : GroupApplyMsg}
    {clock : UInt64} (s : GroupPolicyStore) (htaken : id ∈ msg.taken) :
    ∃ gid, msg.group = some gid ∧ gid.length ≤ kMaxGroupIdLen ∧
      CString.text gid = id ∧
      Upserted msg clock s (true, (s.upsertGroup groupId msg clock).2) := by
  obtain ⟨gid, hgid, rfl⟩ := Option.map_eq_some_iff.mp htaken
  obtain ⟨hgroup, hlength⟩ := Option.filter_eq_some_iff.mp hgid
  have hlength := of_decide_eq_true hlength
  refine ⟨gid, hgroup, hlength, rfl, ?_⟩
  have hsucceeds : (s.upsertGroup groupId msg clock).1 = true :=
    upsertGroup_succeeds hgroup hlength
  rw [← hsucceeds]
  exact upsertGroup_upserted groupId msg clock s

theorem upsertGroup_of_not_taken {groupId : Bytes} {msg : GroupApplyMsg}
    {clock : UInt64} {s : GroupPolicyStore} (htaken : msg.taken = none) :
    s.upsertGroup groupId msg clock = (false, s) := by
  rw [upsertGroup]
  cases hgroup : msg.group with
  | none => rfl
  | some gid =>
      refine if_pos (Nat.not_le.mp fun hlength => ?_)
      simp [GroupApplyMsg.taken, hgroup, hlength.not_gt] at htaken

def HasId (s : GroupPolicyStore) (i : Fin kMaxGroups) (id : Bytes) : Prop :=
  (s.groups i).inUse = true ∧ (s.groups i).id = id

/-- The ids are those of the groups in the store, and a group in front of
another was updated later. -/
structure Ranks (s : GroupPolicyStore) (ids : List Bytes) : Prop where
  mem_iff : ∀ id, id ∈ ids ↔ ∃ i, s.HasId i id
  later : ids.Pairwise fun id id' => ∀ i j, s.HasId i id → s.HasId j id' →
    (s.groups j).policy.lastUpdateNs < (s.groups i).policy.lastUpdateNs

section Written

variable {s s' : GroupPolicyStore} {i : Fin kMaxGroups} {entry : GroupEntry}
  (hgroups : s'.groups = Function.update s.groups i entry)

include hgroups

theorem hasId_written_self {id : Bytes} :
    s'.HasId i id ↔ entry.inUse = true ∧ entry.id = id := by
  rw [HasId, hgroups, Function.update_self]

theorem hasId_written_of_ne {j : Fin kMaxGroups} (hne : j ≠ i) {id : Bytes} :
    s'.HasId j id ↔ s.HasId j id := by
  rw [HasId, HasId, hgroups, Function.update_of_ne hne]

/-- A group written later than all others comes in front of those which are
left in the other slots. -/
theorem Ranks.written {ids rest : List Bytes} (h : s.Ranks ids)
    (hrest : rest.Sublist ids)
    (hothers : ∀ id, id ∈ rest ↔ ∃ j, j ≠ i ∧ s.HasId j id)
    (huse : entry.inUse = true) (hfresh : entry.id ∉ rest)
    (hlater : ∀ j, (s.groups j).inUse = true →
      (s.groups j).policy.lastUpdateNs < entry.policy.lastUpdateNs) :
    s'.Ranks (entry.id :: rest) := by
  -- Who has one of the other ids had it before, in a slot not written.
  have hkept : ∀ {id j}, id ∈ rest → s'.HasId j id →
      j ≠ i ∧ s.HasId j id := by
    intro id j hid hholds
    have hne : j ≠ i := by
      rintro rfl
      rw [← ((hasId_written_self hgroups).mp hholds).2] at hid
      exact hfresh hid
    exact ⟨hne, (hasId_written_of_ne hgroups hne).mp hholds⟩
  have hstamp : ∀ {j}, j ≠ i → s'.groups j = s.groups j := by
    intro j hne
    rw [hgroups, Function.update_of_ne hne]
  constructor
  · intro id
    rw [List.mem_cons, hothers]
    constructor
    · rintro (rfl | ⟨j, hne, hholds⟩)
      · exact ⟨i, (hasId_written_self hgroups).mpr ⟨huse, rfl⟩⟩
      · exact ⟨j, (hasId_written_of_ne hgroups hne).mpr hholds⟩
    · rintro ⟨j, hholds⟩
      rcases eq_or_ne j i with rfl | hne
      · exact .inl ((hasId_written_self hgroups).mp hholds).2.symm
      · exact .inr ⟨j, hne, (hasId_written_of_ne hgroups hne).mp hholds⟩
  · refine List.pairwise_cons.mpr ⟨fun id hid j k hj hk => ?_, ?_⟩
    · obtain ⟨hne, hbefore⟩ := hkept hid hk
      have hself : j = i := by
        by_contra hother
        exact hfresh ((hothers _).mpr
          ⟨j, hother, (hasId_written_of_ne hgroups hother).mp hj⟩)
      rw [hself, hstamp hne, hgroups, Function.update_self]
      exact hlater k hbefore.1
    · refine (h.later.sublist hrest).imp_of_mem fun hid hid' hless j k hj hk => ?_
      obtain ⟨hj, hjbefore⟩ := hkept hid hj
      obtain ⟨hk, hkbefore⟩ := hkept hid' hk
      rw [hstamp hj, hstamp hk]
      exact hless j k hjbefore hkbefore

end Written

namespace Ranks

variable {s s' : GroupPolicyStore} {ids : List Bytes} (h : s.Ranks ids)

include h

theorem nodup : ids.Nodup := by
  refine h.later.imp_of_mem fun hid _ hless heq => ?_
  subst heq
  obtain ⟨i, hholds⟩ := (h.mem_iff _).mp hid
  exact UInt64.lt_irrefl _ (hless i i hholds hholds)

theorem of_groups (hgroups : s'.groups = s.groups) : s'.Ranks ids := by
  constructor
  · simpa only [HasId, hgroups] using h.mem_iff
  · simpa only [HasId, hgroups] using h.later

theorem getLast_id {first : List Bytes} {last : Bytes}
    (hids : ids = first ++ [last]) {i : Fin kMaxGroups}
    (huse : (s.groups i).inUse = true)
    (hleast : ∀ j, (s.groups i).policy.lastUpdateNs ≤
      (s.groups j).policy.lastUpdateNs) :
    (s.groups i).id = last := by
  subst hids
  have hmem := (h.mem_iff (s.groups i).id).mpr ⟨i, huse, rfl⟩
  rcases List.mem_append.mp hmem with hfirst | hlast
  · obtain ⟨k, hholds⟩ := (h.mem_iff last).mp (by simp)
    have hless := (List.pairwise_append.mp h.later).2.2 _ hfirst last
      (List.mem_singleton_self last) i k ⟨huse, rfl⟩ hholds
    exact absurd hless (UInt64.not_lt.mpr (hleast k))
  · exact List.mem_singleton.mp hlast

theorem mem_and_ne_iff (hsound : s.GroupsSound) {i : Fin kMaxGroups}
    (huse : (s.groups i).inUse = true) (id : Bytes) :
    id ≠ (s.groups i).id ∧ id ∈ ids ↔ ∃ j, j ≠ i ∧ s.HasId j id := by
  rw [h.mem_iff]
  constructor
  · rintro ⟨hne, j, hholds⟩
    refine ⟨j, ?_, hholds⟩
    rintro rfl
    exact hne hholds.2.symm
  · rintro ⟨j, hne, hholds⟩
    refine ⟨?_, j, hholds⟩
    rintro rfl
    exact hne (hsound.distinct j i hholds.1 huse hholds.2)

end Ranks

/-- The store does what a table does that gives up the key used least
recently: the same ids, in the order of their last updates, and each miss adds
a group or counts an eviction. -/
structure Caches (s : GroupPolicyStore) (t : Lru.Table Bytes kMaxGroups) :
    Prop where
  ranks : s.Ranks t.keys
  counted : t.keys.length = s.groupCount
  missed : s.stats.groupEvictions + UInt64.ofNat s.groupCount =
    UInt64.ofNat t.misses

/-- Every group in the store was updated before this time. -/
def AllBefore (s : GroupPolicyStore) (now : UInt64) : Prop :=
  ∀ i, (s.groups i).inUse = true → (s.groups i).policy.lastUpdateNs < now

instance (s : GroupPolicyStore) (now : UInt64) : Decidable (s.AllBefore now) :=
  inferInstanceAs (Decidable (∀ _, _ → _))

namespace Caches

variable {s s' : GroupPolicyStore} {t : Lru.Table Bytes kMaxGroups}
  (h : s.Caches t) (hsound : s.GroupsSound)

include h

theorem of_groups (hgroups : s'.groups = s.groups)
    (hcount : s'.groupCount = s.groupCount)
    (hstats : s'.stats.groupEvictions = s.stats.groupEvictions) :
    s'.Caches t where
  ranks := h.ranks.of_groups hgroups
  counted := by rw [hcount, h.counted]
  missed := by rw [hstats, hcount, h.missed]

theorem absent {gid : Bytes} (habsent : ∀ j, ¬ s.Holds j gid) :
    CString.text gid ∉ t.keys := by
  intro hmem
  obtain ⟨j, hholds⟩ := (h.ranks.mem_iff _).mp hmem
  exact habsent j hholds

include hsound

theorem updateGroup {gid : Bytes} {i : Fin kMaxGroups}
    (hheld : s.Holds i gid) (msg : GroupApplyMsg) {clock : UInt64}
    (hlater : s.AllBefore (s.getTime clock)) :
    (s.updateGroup msg clock i).Caches (t.use (CString.text gid)) := by
  obtain ⟨huse, hid⟩ := hheld
  have hmem : CString.text gid ∈ t.keys :=
    (h.ranks.mem_iff _).mpr ⟨i, huse, hid⟩
  have hgroups : (s.updateGroup msg clock i).groups =
      Function.update s.groups i _ := rfl
  constructor
  · rw [Lru.Table.keys_use_of_mem hmem, ← hid]
    refine h.ranks.written hgroups (t.erase_sublist _) (fun id => ?_) huse
      (fun hmem => (Lru.Table.mem_erase_iff.mp hmem).1 rfl) hlater
    rw [Lru.Table.mem_erase_iff]
    exact h.ranks.mem_and_ne_iff hsound huse id
  · rw [Lru.Table.keys_use_of_mem hmem, List.length_cons,
      Lru.Table.length_erase_of_mem hmem]
    exact h.counted
  · rw [Lru.Table.misses_use, if_pos hmem]
    exact h.missed

theorem insertGroup {gid : Bytes} (hlength : gid.length ≤ kMaxGroupIdLen)
    (habsent : s.findGroup? gid = none) {clock : UInt64} {i : Fin kMaxGroups}
    (hfree : (s.groups i).inUse = false)
    (hlater : s.AllBefore (s.getTime clock)) :
    (s.insertGroup gid clock i).Caches (t.use (CString.text gid)) := by
  have hmiss := h.absent (hsound.not_holds_of_absent hlength habsent)
  have hroom : t.keys.length < kMaxGroups := by
    have hfilled : (s.insertGroup gid clock i).GroupsSound :=
      hsound.insertGroup hlength habsent hfree
    rw [h.counted]
    exact hfilled.groupCount_le
  constructor
  · rw [Lru.Table.keys_use_of_room hmiss hroom, ← newGroup_id hlength]
    refine h.ranks.written rfl (List.Sublist.refl _) (fun id => ?_) rfl ?_
      hlater
    · rw [h.ranks.mem_iff]
      refine exists_congr fun j => ⟨fun hholds => ⟨?_, hholds⟩, And.right⟩
      rintro rfl
      exact Bool.false_ne_true (hfree.symm.trans hholds.1)
    · rwa [newGroup_id hlength]
  · rw [Lru.Table.keys_use_of_room hmiss hroom, List.length_cons, h.counted]
    rfl
  · rw [Lru.Table.misses_use, if_neg hmiss, UInt64.ofNat_add, ← h.missed,
      add_assoc, ← UInt64.ofNat_add]
    rfl

theorem replaceGroup {gid : Bytes} (hlength : gid.length ≤ kMaxGroupIdLen)
    (habsent : s.findGroup? gid = none) {clock : UInt64}
    (hfull : ∀ i, (s.groups i).inUse = true)
    (hlater : s.AllBefore (s.getTime clock)) :
    (s.replaceGroup gid clock).Caches (t.use (CString.text gid)) := by
  have hmiss := h.absent (hsound.not_holds_of_absent hlength habsent)
  have hall : t.keys.length = kMaxGroups := by
    rw [h.counted, hsound.counted]
    exact Slots.count_full hfull
  have hne : t.keys ≠ [] := by
    rw [← List.length_pos_iff, hall]
    exact kMaxGroups_pos
  obtain ⟨first, last, hkeys⟩ := t.keys.eq_nil_or_concat'.resolve_left hne
  have hlast : (s.groups s.oldestGroup).id = last :=
    h.ranks.getLast_id hkeys (hfull _) (lastUpdateNs_oldestGroup_le hfull)
  have huse := Lru.Table.keys_use_of_full hmiss kMaxGroups_pos hall
  constructor
  · rw [huse, ← newGroup_id hlength]
    refine h.ranks.written rfl (List.dropLast_sublist _) (fun id => ?_) rfl ?_
      hlater
    · rw [← h.ranks.mem_and_ne_iff hsound (hfull _), hlast]
      exact Lru.Table.mem_dropLast_iff hkeys
    · rw [newGroup_id hlength]
      exact fun hmem => hmiss (List.mem_of_mem_dropLast hmem)
  · rw [huse, List.length_cons, List.length_dropLast,
      hsound.groupCount_replaceGroup gid clock hfull, ← h.counted, hall]
    rfl
  · rw [Lru.Table.misses_use, if_neg hmiss, UInt64.ofNat_add, ← h.missed,
      hsound.groupCount_replaceGroup gid clock hfull]
    exact add_right_comm _ _ _

theorem upserted {gid : Bytes} {msg : GroupApplyMsg} {clock : UInt64}
    (hgroup : msg.group = some gid) (hupserted : Upserted msg clock s (true, s'))
    (hlater : s.AllBefore (s.getTime clock)) :
    s'.Caches (t.use (CString.text gid)) := by
  cases hupserted with
  | updated hother hlength hfound =>
      obtain rfl := Option.some.inj (hother.symm.trans hgroup)
      exact h.updateGroup hsound (hsound.holds_of_found hlength hfound) msg
        hlater
  | inserted hother hlength habsent hfree =>
      obtain rfl := Option.some.inj (hother.symm.trans hgroup)
      exact h.insertGroup hsound hlength habsent (freeGroup?_eq_some hfree)
        hlater
  | replaced hother hlength habsent hfull =>
      obtain rfl := Option.some.inj (hother.symm.trans hgroup)
      exact h.replaceGroup hsound hlength habsent hfull hlater

end Caches

theorem caches_blank {s : GroupPolicyStore} (hgroups : s.groups = fun _ => {})
    (hcount : s.groupCount = 0) (hstats : s.stats = {}) :
    s.Caches .empty where
  ranks := {
    mem_iff id := by simp [Lru.Table.empty, HasId, hgroups]
    later := List.Pairwise.nil }
  counted := hcount.symm
  missed := by
    rw [hstats, hcount]
    rfl

theorem groupEvictions_mapPidToGroup (pid : Int32) (groupId : Bytes)
    (clock : UInt64) (s : GroupPolicyStore) :
    (s.mapPidToGroup pid groupId clock).2.stats.groupEvictions =
      s.stats.groupEvictions := by
  unfold mapPidToGroup
  cases s.findPid? pid with
  | some i => rfl
  | none =>
      cases s.freePid? with
      | some i => rfl
      | none =>
          dsimp only
          split <;> rfl

theorem groupEvictions_tick (s : GroupPolicyStore) :
    s.tick.stats = s.stats := by
  unfold tick
  split <;> rfl

end GroupPolicyStore

/-- The ids of the messages taken since the store was last cleared. -/
def StoreOp.usedAfter (used : List Bytes) : StoreOp → List Bytes
  | .upsertGroup _ msg _ => used ++ msg.taken.toList
  | .clear => []
  | _ => used

def groupsUsed (ops : List StoreOp) : List Bytes :=
  ops.foldl StoreOp.usedAfter []

/-- An update reads a later time than those that wrote the groups in the
store. -/
def StoreOp.ReadsLater (s : GroupPolicyStore) : StoreOp → Prop
  | .upsertGroup _ msg clock =>
      msg.taken.isSome = true → s.AllBefore (s.getTime clock)
  | _ => True

namespace GroupPolicyStore

theorem Caches.step {s : GroupPolicyStore} {used : List Bytes}
    (h : s.Caches (.after kMaxGroups used)) (hsound : s.GroupsSound)
    {op : StoreOp} (hlater : op.ReadsLater s) :
    (s.step op).Caches (.after kMaxGroups (op.usedAfter used)) := by
  cases op with
  | upsertGroup groupId msg clock =>
      rw [GroupPolicyStore.step, StoreOp.usedAfter]
      cases htaken : msg.taken with
      | none =>
          rw [upsertGroup_of_not_taken htaken, Option.toList_none,
            List.append_nil]
          exact h
      | some id =>
          obtain ⟨gid, hgroup, _, rfl, hupserted⟩ :=
            upserted_of_taken groupId s htaken
          rw [Option.toList_some, Lru.Table.after_concat]
          exact h.upserted hsound hgroup hupserted
            (hlater (by rw [htaken, Option.isSome_some]))
  | mapPidToGroup pid groupId clock =>
      obtain ⟨hgroups, hcount⟩ := groups_mapPidToGroup pid groupId clock s
      exact h.of_groups hgroups hcount
        (groupEvictions_mapPidToGroup pid groupId clock s)
  | tick =>
      obtain ⟨hgroups, hcount⟩ := groups_tick s
      exact h.of_groups hgroups hcount
        (congrArg StoreStats.groupEvictions (groupEvictions_tick s))
  | setTimeForTest seq => exact h.of_groups rfl rfl rfl
  | clear => exact caches_blank rfl rfl rfl

theorem runStore_caches {ops : List StoreOp}
    (hlater : storeMachine.Along (fun s op => op.ReadsLater s) {} ops) :
    (runStore ops).Caches (.after kMaxGroups (groupsUsed ops)) := by
  induction ops using List.reverseRecOn with
  | nil => exact caches_blank rfl rfl rfl
  | append_singleton ops op ih =>
      obtain ⟨hbefore, hlast⟩ := Machine.along_concat.mp hlater
      rw [groupsUsed, List.foldl_concat, runStore, Machine.value_run_concat]
      exact (ih hbefore).step (groupsSound_runStore ops) hlast

theorem GroupsSound.isSome_getGroup_iff {s : GroupPolicyStore}
    (h : s.GroupsSound) {gid : Bytes} (hlength : gid.length ≤ kMaxGroupIdLen) :
    (s.getGroup gid).isSome = true ↔ ∃ i, s.Holds i gid := by
  rw [getGroup, Option.isSome_map]
  constructor
  · intro hfound
    obtain ⟨i, hfound⟩ := Option.isSome_iff_exists.mp hfound
    exact ⟨i, h.holds_of_found hlength hfound⟩
  · rintro ⟨i, hholds⟩
    cases hfound : s.findGroup? gid with
    | some i => rfl
    | none => exact absurd hholds (h.not_holds_of_absent hlength hfound i)

/-- If every update reads a later time than those before it, the store has the
groups updated last since it was cleared, as many as there is room for, and
every update that did not find its group added one or counts as an eviction. -/
theorem runStore_last_used (ops : List StoreOp)
    (hlater : storeMachine.Along (fun s op => op.ReadsLater s) {} ops) :
    let s := runStore ops
    let used := groupsUsed ops
    (∀ gid : Bytes, gid.length ≤ kMaxGroupIdLen →
        ((s.getGroup gid).isSome = true ↔
          CString.text gid ∈ used.dedup.rtake kMaxGroups)) ∧
      s.groupCount = min kMaxGroups used.dedup.length ∧
      s.stats.groupEvictions + UInt64.ofNat s.groupCount =
        UInt64.ofNat (Lru.Table.after kMaxGroups used).misses := by
  intro s used
  have h : s.Caches (.after kMaxGroups used) := runStore_caches hlater
  have hsound : s.GroupsSound := groupsSound_runStore ops
  refine ⟨fun gid hlength => ?_, ?_, h.missed⟩
  · rw [hsound.isSome_getGroup_iff hlength, ← Lru.mem_keys_after]
    exact (h.ranks.mem_iff _).symm
  · rw [← h.counted, Lru.keys_after, List.length_take, Lru.recency,
      List.length_reverse]

def twoGroups : List StoreOp :=
  [.upsertGroup [] { group := some (bytes "web") } 1,
    .upsertGroup [] { group := some (bytes "db") } 2]

theorem twoGroups_last_used :
    let s := runStore twoGroups
    let used := groupsUsed twoGroups
    (∀ gid : Bytes, gid.length ≤ kMaxGroupIdLen →
        ((s.getGroup gid).isSome = true ↔
          CString.text gid ∈ used.dedup.rtake kMaxGroups)) ∧
      s.groupCount = min kMaxGroups used.dedup.length ∧
      s.stats.groupEvictions + UInt64.ofNat s.groupCount =
        UInt64.ofNat (Lru.Table.after kMaxGroups used).misses :=
  runStore_last_used twoGroups
    ⟨fun _ => by decide +kernel, fun _ => by decide +kernel, trivial⟩

end GroupPolicyStore

end HeidiKernel.Gov
