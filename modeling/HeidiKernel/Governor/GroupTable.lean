import HeidiKernel.Governor.GroupPolicyStore

namespace HeidiKernel.Gov

open HeidiKernel.Data
open HeidiKernel.Transition

/-! What a call on the groups does to the table, whatever calls came before. -/

/-- The string a slot holds as the id of its group. -/
def GroupEntry.id (entry : GroupEntry) : Bytes :=
  CString.text entry.policy.groupId

/-- The test the loops over the groups make. -/
def GroupEntry.answers (groupId : Bytes) (entry : GroupEntry) : Bool :=
  entry.inUse && CString.strncmpEq kMaxGroupIdLen entry.policy.groupId groupId

theorem GroupEntry.answers_iff {groupId : Bytes} {entry : GroupEntry} :
    entry.answers groupId = true ↔ entry.inUse = true ∧
      entry.id.take kMaxGroupIdLen =
        (CString.text groupId).take kMaxGroupIdLen := by
  rw [answers, Bool.and_eq_true, CString.strncmpEq_iff]
  rfl

/-- A NUL ends the id, after at most `kMaxGroupIdLen` bytes. -/
structure GroupEntry.Terminated (entry : GroupEntry) : Prop where
  zero_mem : 0 ∈ entry.policy.groupId
  length_le : entry.id.length ≤ kMaxGroupIdLen

theorem GroupEntry.Terminated.answers_iff {groupId : Bytes}
    {entry : GroupEntry} (h : entry.Terminated)
    (hlength : groupId.length ≤ kMaxGroupIdLen) :
    entry.answers groupId = true ↔
      entry.inUse = true ∧ entry.id = CString.text groupId := by
  rw [GroupEntry.answers_iff, List.take_of_length_le h.length_le,
    List.take_of_length_le ((CString.length_text_le groupId).trans hlength)]

namespace GroupPolicyStore

section NewGroup

variable {gid : Bytes} (hlength : gid.length ≤ kMaxGroupIdLen) (now : UInt64)

include hlength

theorem length_lt_blank :
    gid.length < (List.replicate (kMaxGroupIdLen + 1) (0 : UInt8)).length := by
  rw [List.length_replicate]
  omega

theorem newGroup_id : (newGroup gid now).id = CString.text gid :=
  (CString.text_strncpy_set (length_lt_blank hlength) gid).trans
    (List.take_of_length_le (CString.length_text_le gid))

theorem newGroup_terminated : (newGroup gid now).Terminated where
  zero_mem := by
    refine List.mem_set ?_ 0
    rw [CString.length_strncpy (length_lt_blank hlength).le]
    exact length_lt_blank hlength
  length_le := by
    rw [newGroup_id hlength]
    exact (CString.length_text_le gid).trans hlength

theorem newGroup_answers : (newGroup gid now).answers gid = true :=
  ((newGroup_terminated hlength now).answers_iff hlength).mpr
    ⟨rfl, newGroup_id hlength now⟩

end NewGroup

/-- What eviction and insertion come to when every slot is in use. -/
def replaceGroup (gid : Bytes) (clock : UInt64) (s : GroupPolicyStore) :
    GroupPolicyStore :=
  { s with
    groups := Function.update s.groups s.oldestGroup
      (newGroup gid (s.getTime clock))
    groupCount :=
      (if s.groupCount > 0 then s.groupCount - 1 else s.groupCount) + 1
    stats := { s.stats with
      groupEvictions := s.stats.groupEvictions + 1 } }

/-- The ways a call of `upsertGroup` can go. -/
inductive Upserted (msg : GroupApplyMsg) (clock : UInt64)
    (s : GroupPolicyStore) : Bool × GroupPolicyStore → Prop
  | rejected : Upserted msg clock s (false, s)
  | updated {gid : Bytes} {i : Fin kMaxGroups} (hgroup : msg.group = some gid)
      (hlength : gid.length ≤ kMaxGroupIdLen)
      (hfound : s.findGroup? gid = some i) :
      Upserted msg clock s (true, s.updateGroup msg clock i)
  | inserted {gid : Bytes} {i : Fin kMaxGroups}
      (hgroup : msg.group = some gid) (hlength : gid.length ≤ kMaxGroupIdLen)
      (habsent : s.findGroup? gid = none) (hfree : s.freeGroup? = some i) :
      Upserted msg clock s (true, s.insertGroup gid clock i)
  | replaced {gid : Bytes} (hgroup : msg.group = some gid)
      (hlength : gid.length ≤ kMaxGroupIdLen)
      (habsent : s.findGroup? gid = none)
      (hfull : ∀ i, (s.groups i).inUse = true) :
      Upserted msg clock s (true, s.replaceGroup gid clock)

theorem freeGroup?_eq_none {s : GroupPolicyStore} (h : s.freeGroup? = none)
    (i : Fin kMaxGroups) : (s.groups i).inUse = true := by
  simpa using Slots.first?_eq_none_iff.mp h i

theorem freeGroup?_eq_some {s : GroupPolicyStore} {i : Fin kMaxGroups}
    (h : s.freeGroup? = some i) : (s.groups i).inUse = false := by
  simpa using (Slots.first?_eq_some_iff.mp h).1

def evicted (s : GroupPolicyStore) : GroupPolicyStore :=
  let s := s.evictOldestGroup
  { s with stats := { s.stats with
    groupEvictions := s.stats.groupEvictions + 1 } }

theorem groups_evicted (s : GroupPolicyStore) :
    s.evicted.groups = Function.update s.groups s.oldestGroup
      { s.groups s.oldestGroup with inUse := false } := rfl

/-- The slot given up is the one the insertion then finds. -/
theorem freeGroup?_evicted {s : GroupPolicyStore}
    (hfull : ∀ i, (s.groups i).inUse = true) :
    s.evicted.freeGroup? = some s.oldestGroup := by
  rw [freeGroup?, groups_evicted]
  exact Slots.first?_free_update GroupEntry.inUse hfull rfl

theorem insertGroup_evicted (gid : Bytes) (clock : UInt64)
    (s : GroupPolicyStore) :
    s.evicted.insertGroup gid clock s.oldestGroup =
      s.replaceGroup gid clock := by
  rw [insertGroup, groups_evicted, Function.update_idem]
  rfl

theorem upsertGroup_upserted (groupId : Bytes) (msg : GroupApplyMsg)
    (clock : UInt64) (s : GroupPolicyStore) :
    Upserted msg clock s (s.upsertGroup groupId msg clock) := by
  rw [upsertGroup]
  cases hgroup : msg.group with
  | none => exact .rejected
  | some gid =>
      dsimp only
      by_cases hlong : gid.length > kMaxGroupIdLen
      · rw [if_pos hlong]
        exact .rejected
      rw [if_neg hlong]
      have hlength : gid.length ≤ kMaxGroupIdLen := Nat.not_lt.mp hlong
      cases hfind : s.findGroup? gid with
      | some i => exact .updated hgroup hlength hfind
      | none =>
          cases hfree : s.freeGroup? with
          | some i => exact .inserted hgroup hlength hfind hfree
          | none =>
              have hfull := freeGroup?_eq_none hfree
              have hevicted := freeGroup?_evicted hfull
              have hreplaced := insertGroup_evicted gid clock s
              rw [evicted] at hevicted hreplaced
              simp only [hevicted, hreplaced]
              exact .replaced hgroup hlength hfind hfull

/-- The counter agrees with the flags, and the ids of the slots in use are
strings that differ. -/
structure GroupsSound (s : GroupPolicyStore) : Prop where
  counted : s.groupCount = Slots.count fun i => (s.groups i).inUse
  terminated : ∀ i, (s.groups i).inUse = true → (s.groups i).Terminated
  distinct : ∀ i j, (s.groups i).inUse = true → (s.groups j).inUse = true →
    (s.groups i).id = (s.groups j).id → i = j

def Holds (s : GroupPolicyStore) (i : Fin kMaxGroups) (gid : Bytes) : Prop :=
  (s.groups i).inUse = true ∧ (s.groups i).id = CString.text gid

theorem groupsSound_blank {s : GroupPolicyStore}
    (hgroups : s.groups = fun _ => {}) (hcount : s.groupCount = 0) :
    s.GroupsSound where
  counted := by
    rw [hcount, hgroups]
    exact Slots.count_false.symm
  terminated i huse := by simp [hgroups] at huse
  distinct i j huse := by simp [hgroups] at huse

namespace GroupsSound

variable {s s' : GroupPolicyStore} (h : s.GroupsSound)

include h

theorem groupCount_le : s.groupCount ≤ kMaxGroups := by
  rw [h.counted]
  exact Slots.count_le _

/-- A slot answers to an id if and only if it holds it. -/
theorem answers_iff {gid : Bytes} (hlength : gid.length ≤ kMaxGroupIdLen)
    (i : Fin kMaxGroups) :
    (s.groups i).answers gid = true ↔ s.Holds i gid := by
  cases huse : (s.groups i).inUse with
  | false => simp [GroupEntry.answers, Holds, huse]
  | true => exact (h.terminated i huse).answers_iff hlength

theorem holds_of_found {gid : Bytes} {i : Fin kMaxGroups}
    (hlength : gid.length ≤ kMaxGroupIdLen)
    (hfound : s.findGroup? gid = some i) : s.Holds i gid :=
  (h.answers_iff hlength i).mp (Slots.first?_eq_some_iff.mp hfound).1

theorem not_holds_of_absent {gid : Bytes}
    (hlength : gid.length ≤ kMaxGroupIdLen)
    (habsent : s.findGroup? gid = none) (i : Fin kMaxGroups) :
    ¬ s.Holds i gid := by
  intro hholds
  have hanswers := (h.answers_iff hlength i).mpr hholds
  rw [GroupEntry.answers] at hanswers
  exact absurd hanswers (by simpa using Slots.first?_eq_none_iff.mp habsent i)

theorem of_groups (hgroups : s'.groups = s.groups)
    (hcount : s'.groupCount = s.groupCount) : s'.GroupsSound where
  counted := by rw [hcount, hgroups, h.counted]
  terminated := by simpa only [hgroups] using h.terminated
  distinct := by simpa only [hgroups] using h.distinct

/-- A slot may be written with an id no other slot in use has. -/
theorem write {i : Fin kMaxGroups} {entry : GroupEntry}
    (hgroups : s'.groups = Function.update s.groups i entry)
    (hcount : s'.groupCount = Slots.count fun j =>
      (Function.update s.groups i entry j).inUse)
    (hterminated : entry.Terminated)
    (hfresh : ∀ j, j ≠ i → (s.groups j).inUse = true →
      (s.groups j).id ≠ entry.id) :
    s'.GroupsSound where
  counted := by rw [hcount, hgroups]
  terminated j huse := by
    rw [hgroups] at huse ⊢
    by_cases hj : j = i
    · subst hj
      rwa [Function.update_self]
    · rw [Function.update_of_ne hj] at huse ⊢
      exact h.terminated j huse
  distinct j k hj hk hid := by
    rw [hgroups] at hj hk hid
    by_cases hji : j = i <;> by_cases hki : k = i
    · rw [hji, hki]
    · subst hji
      rw [Function.update_of_ne hki] at hk hid
      rw [Function.update_self] at hid
      exact absurd hid.symm (hfresh k hki hk)
    · subst hki
      rw [Function.update_of_ne hji] at hj hid
      rw [Function.update_self] at hid
      exact absurd hid (hfresh j hji hj)
    · rw [Function.update_of_ne hji] at hj hid
      rw [Function.update_of_ne hki] at hk hid
      exact h.distinct j k hj hk hid

theorem updateGroup {msg : GroupApplyMsg} {clock : UInt64}
    {i : Fin kMaxGroups} (huse : (s.groups i).inUse = true) :
    (s.updateGroup msg clock i).GroupsSound := by
  have hterminated := h.terminated i huse
  refine h.write rfl ?_ ⟨hterminated.zero_mem, hterminated.length_le⟩
    fun j hj hjuse hid => hj (h.distinct j i hjuse huse hid)
  rw [Slots.count_rewrite GroupEntry.inUse]
  · exact h.counted
  · rfl

theorem fresh {gid : Bytes} {now : UInt64}
    (hlength : gid.length ≤ kMaxGroupIdLen)
    (habsent : s.findGroup? gid = none) (j : Fin kMaxGroups)
    (huse : (s.groups j).inUse = true) :
    (s.groups j).id ≠ (newGroup gid now).id := by
  intro hid
  rw [newGroup_id hlength] at hid
  exact h.not_holds_of_absent hlength habsent j ⟨huse, hid⟩

theorem insertGroup {gid : Bytes} {clock : UInt64} {i : Fin kMaxGroups}
    (hlength : gid.length ≤ kMaxGroupIdLen)
    (habsent : s.findGroup? gid = none)
    (hfree : (s.groups i).inUse = false) :
    (s.insertGroup gid clock i).GroupsSound := by
  refine h.write rfl ?_ (newGroup_terminated hlength _) fun j _ =>
    h.fresh hlength habsent j
  rw [Slots.count_fill GroupEntry.inUse hfree rfl, ← h.counted]
  rfl

theorem groupCount_replaceGroup (gid : Bytes) (clock : UInt64)
    (hfull : ∀ i, (s.groups i).inUse = true) :
    (s.replaceGroup gid clock).groupCount = s.groupCount := by
  have hpos : 0 < s.groupCount := by
    rw [h.counted]
    exact Slots.count_pos_of (hfull ⟨0, kMaxGroups_pos⟩)
  rw [replaceGroup, if_pos hpos]
  exact Nat.sub_add_cancel hpos

theorem replaceGroup {gid : Bytes} {clock : UInt64}
    (hlength : gid.length ≤ kMaxGroupIdLen)
    (habsent : s.findGroup? gid = none)
    (hfull : ∀ i, (s.groups i).inUse = true) :
    (s.replaceGroup gid clock).GroupsSound := by
  refine h.write rfl ?_ (newGroup_terminated hlength _) fun j _ =>
    h.fresh hlength habsent j
  rw [h.groupCount_replaceGroup gid clock hfull,
    Slots.count_rewrite GroupEntry.inUse (hfull s.oldestGroup).symm]
  exact h.counted

theorem upserted {msg : GroupApplyMsg} {clock : UInt64} {ok : Bool}
    (hupserted : Upserted msg clock s (ok, s')) : s'.GroupsSound := by
  cases hupserted with
  | rejected => exact h
  | updated _ hlength hfound =>
      exact h.updateGroup (h.holds_of_found hlength hfound).1
  | inserted _ hlength habsent hfree =>
      exact h.insertGroup hlength habsent (freeGroup?_eq_some hfree)
  | replaced _ hlength habsent hfull =>
      exact h.replaceGroup hlength habsent hfull

end GroupsSound

/-! The other calls leave the groups alone, except for `clear`. -/

theorem groups_mapPidToGroup (pid : Int32) (groupId : Bytes) (clock : UInt64)
    (s : GroupPolicyStore) :
    let s' := (s.mapPidToGroup pid groupId clock).2
    s'.groups = s.groups ∧ s'.groupCount = s.groupCount := by
  unfold mapPidToGroup
  cases s.findPid? pid with
  | some i => exact ⟨rfl, rfl⟩
  | none =>
      cases s.freePid? with
      | some i => exact ⟨rfl, rfl⟩
      | none =>
          dsimp only
          split <;> exact ⟨rfl, rfl⟩

theorem groups_tick (s : GroupPolicyStore) :
    s.tick.groups = s.groups ∧ s.tick.groupCount = s.groupCount := by
  unfold tick
  split <;> exact ⟨rfl, rfl⟩

theorem GroupsSound.step {s : GroupPolicyStore} (h : s.GroupsSound)
    (op : StoreOp) : (s.step op).GroupsSound := by
  cases op with
  | upsertGroup groupId msg clock =>
      exact h.upserted (upsertGroup_upserted groupId msg clock s)
  | mapPidToGroup pid groupId clock =>
      obtain ⟨hgroups, hcount⟩ := groups_mapPidToGroup pid groupId clock s
      exact h.of_groups hgroups hcount
  | tick => exact h.of_groups (groups_tick s).1 (groups_tick s).2
  | setTimeForTest seq => exact h.of_groups rfl rfl
  | clear => exact groupsSound_blank rfl rfl

theorem groupsSound_runStore (ops : List StoreOp) :
    (runStore ops).GroupsSound :=
  Machine.invariant_run (m := storeMachine) (I := GroupsSound)
    (fun _ op h => h.step op) (groupsSound_blank rfl rfl) ops

/-- What is written to the slot of a group that is there: the time, and each
setting the message provides. -/
structure Renewed (msg : GroupApplyMsg) (now : UInt64)
    (before after : GroupEntry) : Prop where
  inUse : after.inUse = true
  groupId : after.policy.groupId = before.policy.groupId
  lastUpdateNs : after.policy.lastUpdateNs = now
  settings : after.policy.settings =
    msg.settings.override before.policy.settings

/-- What is written to the slot of a group that was not there: its id and the
time, and nothing the slot held before. -/
structure Blank (gid : Bytes) (now : UInt64) (entry : GroupEntry) : Prop where
  inUse : entry.inUse = true
  id : entry.id = CString.text gid
  lastUpdateNs : entry.policy.lastUpdateNs = now
  settings : entry.policy.settings = {}

theorem blank_newGroup {gid : Bytes} (hlength : gid.length ≤ kMaxGroupIdLen)
    (now : UInt64) : Blank gid now (newGroup gid now) :=
  ⟨rfl, newGroup_id hlength now, rfl, rfl⟩

/-- What a successful call does to the slot it writes: the slot held the group,
or it was free, or all were in use and none was older. -/
inductive SlotWritten (msg : GroupApplyMsg) (gid : Bytes) (now : UInt64)
    (s s' : GroupPolicyStore) (i : Fin kMaxGroups) : Prop
  | updated (hheld : s.Holds i gid)
      (hentry : Renewed msg now (s.groups i) (s'.groups i))
      (hcount : s'.groupCount = s.groupCount) (hstats : s'.stats = s.stats)
  | filled (habsent : ∀ j, ¬ s.Holds j gid)
      (hfree : (s.groups i).inUse = false)
      (hentry : Blank gid now (s'.groups i))
      (hcount : s'.groupCount = s.groupCount + 1) (hstats : s'.stats = s.stats)
  | replaced (habsent : ∀ j, ¬ s.Holds j gid)
      (hfull : ∀ j, (s.groups j).inUse = true)
      (holdest : ∀ j, (s.groups i).policy.lastUpdateNs ≤
        (s.groups j).policy.lastUpdateNs)
      (hentry : Blank gid now (s'.groups i))
      (hcount : s'.groupCount = s.groupCount)
      (hstats : s'.stats = { s.stats with
        groupEvictions := s.stats.groupEvictions + 1 })

/-- What no call of `upsertGroup` touches. -/
structure RestKept (s s' : GroupPolicyStore) (i : Fin kMaxGroups) : Prop where
  groups : ∀ j, j ≠ i → s'.groups j = s.groups j
  pidMap : s'.pidMap = s.pidMap
  pidMapCount : s'.pidMapCount = s.pidMapCount
  testSeq : s'.testSeq = s.testSeq

theorem restKept_of_update {s s' : GroupPolicyStore} {i : Fin kMaxGroups}
    {entry : GroupEntry} (hgroups : s'.groups = Function.update s.groups i entry)
    (hpidMap : s'.pidMap = s.pidMap)
    (hpidMapCount : s'.pidMapCount = s.pidMapCount)
    (htestSeq : s'.testSeq = s.testSeq) : RestKept s s' i where
  groups j hj := by rw [hgroups, Function.update_of_ne hj]
  pidMap := hpidMap
  pidMapCount := hpidMapCount
  testSeq := htestSeq

theorem lastUpdateNs_oldestGroup_le {s : GroupPolicyStore}
    (hfull : ∀ i, (s.groups i).inUse = true) (j : Fin kMaxGroups) :
    (s.groups s.oldestGroup).policy.lastUpdateNs ≤
      (s.groups j).policy.lastUpdateNs := by
  have htop : ∀ i, (s.groups i).policy.lastUpdateNs.toNat ≤ 2 ^ 64 - 1 :=
    fun i => Nat.le_sub_one_of_lt (UInt64.toNat_lt _)
  exact UInt64.le_iff_toNat_le.mpr (Slots.stamp_oldest_le _ hfull htop j)

theorem GroupsSound.slotWritten {s s' : GroupPolicyStore} (h : s.GroupsSound)
    {msg : GroupApplyMsg} {clock : UInt64}
    (hupserted : Upserted msg clock s (true, s')) :
    ∃ gid i, msg.group = some gid ∧ s'.Holds i gid ∧
      SlotWritten msg gid (s.getTime clock) s s' i ∧ RestKept s s' i := by
  cases hupserted with
  | @updated gid i hgroup hlength hfound =>
      have hheld := h.holds_of_found hlength hfound
      have hentry : Renewed msg (s.getTime clock) (s.groups i)
          ((s.updateGroup msg clock i).groups i) := by
        simp only [GroupPolicyStore.updateGroup, Function.update_self]
        exact ⟨hheld.1, rfl, rfl, rfl⟩
      refine ⟨gid, i, hgroup, ⟨hentry.inUse, ?_⟩,
        .updated hheld hentry rfl rfl, restKept_of_update rfl rfl rfl rfl⟩
      rw [GroupEntry.id, hentry.groupId]
      exact hheld.2
  | @inserted gid i hgroup hlength habsent hfree =>
      have hentry : Blank gid (s.getTime clock)
          ((s.insertGroup gid clock i).groups i) := by
        simp only [GroupPolicyStore.insertGroup, Function.update_self]
        exact blank_newGroup hlength _
      exact ⟨gid, i, hgroup, ⟨hentry.inUse, hentry.id⟩,
        .filled (h.not_holds_of_absent hlength habsent)
          (freeGroup?_eq_some hfree) hentry rfl rfl,
        restKept_of_update rfl rfl rfl rfl⟩
  | @replaced gid hgroup hlength habsent hfull =>
      have hentry : Blank gid (s.getTime clock)
          ((s.replaceGroup gid clock).groups s.oldestGroup) := by
        simp only [GroupPolicyStore.replaceGroup, Function.update_self]
        exact blank_newGroup hlength _
      exact ⟨gid, s.oldestGroup, hgroup, ⟨hentry.inUse, hentry.id⟩,
        .replaced (h.not_holds_of_absent hlength habsent) hfull
          (lastUpdateNs_oldestGroup_le hfull) hentry
          (h.groupCount_replaceGroup gid clock hfull) rfl,
        restKept_of_update rfl rfl rfl rfl⟩

/-- After any calls at any times the table is sound, and one more `upsertGroup`
either changes nothing or writes one slot. -/
theorem runStore_groupTable (ops : List StoreOp) :
    let s := runStore ops
    s.GroupsSound ∧ s.groupCount ≤ kMaxGroups ∧
      ∀ groupId msg clock,
        let answer := s.upsertGroup groupId msg clock
        (answer.1 = false → answer.2 = s) ∧
          (answer.1 = true →
            ∃ gid i, msg.group = some gid ∧ answer.2.Holds i gid ∧
              SlotWritten msg gid (s.getTime clock) s answer.2 i ∧
              RestKept s answer.2 i) := by
  intro s
  have h : s.GroupsSound := groupsSound_runStore ops
  refine ⟨h, h.groupCount_le, fun groupId msg clock => ?_⟩
  have hupserted := upsertGroup_upserted groupId msg clock s
  cases hanswer : s.upsertGroup groupId msg clock with
  | mk ok s' =>
      rw [hanswer] at hupserted
      constructor
      · rintro rfl
        cases hupserted
        rfl
      · rintro rfl
        exact h.slotWritten hupserted

end GroupPolicyStore

end HeidiKernel.Gov
