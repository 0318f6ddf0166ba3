import HeidiKernel.Governor.GroupTable

namespace HeidiKernel.Gov

open HeidiKernel.Data

/-! What the store keeps of the settings a message provides. -/

theorem GroupSettings.override_empty (provided : GroupSettings) :
    provided.override {} = provided := by
  simp [override, Option.or_none]

namespace GroupPolicyStore

def settingsOf? (gid : Bytes) (s : GroupPolicyStore) : Option GroupSettings :=
  (s.getGroup gid).map GroupPolicy.settings

/-- The group is in the store, and each of its settings is the one the message
provides or, where it provides none, the one the group had before. -/
def Retained (msg : GroupApplyMsg) (gid : Bytes)
    (before after : GroupPolicyStore) : Prop :=
  after.settingsOf? gid =
    some (msg.settings.override ((before.settingsOf? gid).getD {}))

instance (msg : GroupApplyMsg) (gid : Bytes)
    (before after : GroupPolicyStore) :
    Decidable (Retained msg gid before after) :=
  inferInstanceAs (Decidable (_ = _))

theorem findGroup?_update (gid : Bytes) {s s' : GroupPolicyStore}
    {i : Fin kMaxGroups} {entry : GroupEntry}
    (hgroups : s'.groups = Function.update s.groups i entry) :
    s'.findGroup? gid = Slots.first? (Function.update
      (fun j => (s.groups j).answers gid) i (entry.answers gid)) := by
  rw [← Slots.used_update (GroupEntry.answers gid), ← hgroups]
  rfl

theorem settingsOf?_updateGroup {gid : Bytes} {s : GroupPolicyStore}
    {i : Fin kMaxGroups} (hfound : s.findGroup? gid = some i)
    (msg : GroupApplyMsg) (clock : UInt64) :
    (s.updateGroup msg clock i).settingsOf? gid =
      some (msg.settings.override (s.groups i).policy.settings) := by
  have hstill : (s.updateGroup msg clock i).findGroup? gid = some i := by
    rw [findGroup?_update gid rfl]
    exact (congrArg Slots.first? (Function.update_eq_self i _)).trans hfound
  rw [settingsOf?, getGroup, hstill]
  simp [updateGroup]

/-- A group put into a slot is found there, without any settings. -/
theorem settingsOf?_newGroup {gid : Bytes} {s s' : GroupPolicyStore}
    {i : Fin kMaxGroups} {now : UInt64}
    (hlength : gid.length ≤ kMaxGroupIdLen)
    (habsent : s.findGroup? gid = none)
    (hgroups : s'.groups = Function.update s.groups i (newGroup gid now)) :
    s'.settingsOf? gid = some {} := by
  have hfound : s'.findGroup? gid = some i := by
    rw [findGroup?_update gid hgroups, newGroup_answers hlength]
    refine Slots.first?_eq_some_iff.mpr
      ⟨by rw [Function.update_self], fun j hj => ?_⟩
    rw [Function.update_of_ne hj.ne]
    exact Slots.first?_eq_none_iff.mp habsent j
  rw [settingsOf?, getGroup, hfound, Option.map_some, hgroups,
    Function.update_self]
  rfl

theorem getGroup_of_absent {gid : Bytes} {s : GroupPolicyStore}
    (habsent : s.findGroup? gid = none) : s.getGroup gid = none := by
  rw [getGroup, habsent, Option.map_none]

theorem retained_newGroup_iff {msg : GroupApplyMsg} {gid : Bytes}
    {s s' : GroupPolicyStore} (habsent : s.findGroup? gid = none)
    (hblank : s'.settingsOf? gid = some {}) :
    Retained msg gid s s' ↔ msg.settings = {} := by
  rw [Retained, hblank, settingsOf?, getGroup_of_absent habsent,
    Option.map_none, Option.getD_none, GroupSettings.override_empty,
    Option.some.injEq, eq_comm]

/-- A call that succeeds keeps what its message says if and only if the group
is in the store already or the message provides no setting. -/
theorem upsertGroup_retained_iff (ops : List StoreOp) {groupId gid : Bytes}
    {msg : GroupApplyMsg} {clock : UInt64} (hgroup : msg.group = some gid)
    (hok : ((runStore ops).upsertGroup groupId msg clock).1 = true) :
    let s := runStore ops
    Retained msg gid s (s.upsertGroup groupId msg clock).2 ↔
      (s.getGroup gid).isSome ∨ msg.settings = {} := by
  intro s
  have hupserted := upsertGroup_upserted groupId msg clock s
  cases hanswer : s.upsertGroup groupId msg clock with
  | mk ok s' =>
      have hok : ok = true := (congrArg Prod.fst hanswer).symm.trans hok
      subst hok
      rw [hanswer] at hupserted
      cases hupserted with
      | @updated other i hother hlength hfound =>
          obtain rfl : other = gid := Option.some.inj (hother.symm.trans hgroup)
          rw [Retained, settingsOf?_updateGroup hfound, settingsOf?, getGroup,
            hfound]
          simp
      | @inserted other i hother hlength habsent hfree =>
          obtain rfl : other = gid := Option.some.inj (hother.symm.trans hgroup)
          rw [getGroup_of_absent habsent, retained_newGroup_iff habsent
            (settingsOf?_newGroup hlength habsent rfl)]
          simp
      | @replaced other hother hlength habsent hfull =>
          obtain rfl : other = gid := Option.some.inj (hother.symm.trans hgroup)
          rw [getGroup_of_absent habsent, retained_newGroup_iff habsent
            (settingsOf?_newGroup hlength habsent rfl)]
          simp

def webGroup : GroupApplyMsg := { group := some (bytes "web") }

def webHalf : GroupApplyMsg := { webGroup with cpu := some { maxPct := some 50 } }

theorem second_upsert_retained :
    let s := runStore [.upsertGroup [] webGroup 1]
    Retained webHalf (bytes "web") s (s.upsertGroup [] webHalf 2).2 :=
  (upsertGroup_retained_iff [.upsertGroup [] webGroup 1] rfl
    (by decide +kernel)).mpr (.inl (by decide +kernel))

/-- The first message about a group does not limit its processor. -/
theorem first_upsert_drops_settings :
    ¬ ∀ (ops : List StoreOp) (groupId gid : Bytes) (msg : GroupApplyMsg)
      (clock : UInt64), msg.group = some gid →
        ((runStore ops).upsertGroup groupId msg clock).1 = true →
          Retained msg gid (runStore ops)
            ((runStore ops).upsertGroup groupId msg clock).2 := by
  intro hclaim
  have hretained := hclaim [] [] (bytes "web") webHalf 1 rfl (by decide +kernel)
  exact absurd hretained (by decide +kernel)

end GroupPolicyStore

end HeidiKernel.Gov
