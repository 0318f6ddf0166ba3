import HeidiKernel.Governor.GroupTable

namespace HeidiKernel.Gov

open HeidiKernel.Data
open HeidiKernel.Transition

/-! The table of pids as a partial map from pids to groups. An entry does not
store its pid: the pid is the index of the slot. -/

/-- The pid a slot is looked up with. -/
def pidOf (i : Fin kMaxPidGroupMap) : Int32 := Int32.ofNat i

theorem toInt_pidOf (i : Fin kMaxPidGroupMap) : (pidOf i).toInt = (i : Nat) :=
  Int32.toInt_ofNat_of_lt (i.isLt.trans (by decide))

@[simp] theorem pidOf_inj {i j : Fin kMaxPidGroupMap} :
    pidOf i = pidOf j ↔ i = j := by
  constructor
  · intro h
    have hint := congrArg Int32.toInt h
    rw [toInt_pidOf, toInt_pidOf] at hint
    exact Fin.ext (Int.ofNat.inj hint)
  · exact congrArg pidOf

theorem zero_le_pidOf (i : Fin kMaxPidGroupMap) : 0 ≤ pidOf i := by
  rw [Int32.le_iff_toInt_le, toInt_pidOf, Int32.toInt_zero]
  exact Int.natCast_nonneg i

theorem pidOf_ne {pid : Int32} (h : ¬0 ≤ pid) (i : Fin kMaxPidGroupMap) :
    pidOf i ≠ pid := by
  rintro rfl
  exact h (zero_le_pidOf i)

namespace GroupPolicyStore

def pidView (s : GroupPolicyStore) (pid : Int32) : Option Bytes :=
  s.getGroupForPid pid

theorem findPid?_eq_some_iff {s : GroupPolicyStore} {pid : Int32}
    {i : Fin kMaxPidGroupMap} :
    s.findPid? pid = some i ↔ (s.pidMap i).inUse = true ∧ pidOf i = pid := by
  rw [findPid?, Slots.first?_eq_some_iff, Bool.and_eq_true, decide_eq_true_iff]
  refine ⟨And.left, fun h => ⟨h, fun j hj => ?_⟩⟩
  have hother : pidOf j ≠ pid := by
    rw [← h.2, Ne, pidOf_inj]
    exact hj.ne
  rw [Bool.and_eq_false_iff]
  exact .inr (decide_eq_false hother)

theorem findPid?_pidOf_eq_none_iff {s : GroupPolicyStore}
    {i : Fin kMaxPidGroupMap} :
    s.findPid? (pidOf i) = none ↔ (s.pidMap i).inUse = false := by
  rw [← Bool.not_eq_true, Option.eq_none_iff_forall_ne_some]
  constructor
  · intro h huse
    exact h i (findPid?_eq_some_iff.mpr ⟨huse, rfl⟩)
  · rintro hfree j hfound
    obtain ⟨huse, hsame⟩ := findPid?_eq_some_iff.mp hfound
    rw [pidOf_inj.mp hsame] at huse
    exact hfree huse

theorem pidView_pidOf (s : GroupPolicyStore) (i : Fin kMaxPidGroupMap) :
    s.pidView (pidOf i) = if (s.pidMap i).inUse then
      some (CString.text (s.pidMap i).groupId) else none := by
  cases huse : (s.pidMap i).inUse with
  | true =>
      rw [pidView, getGroupForPid, findPid?_eq_some_iff.mpr ⟨huse, rfl⟩]
      rfl
  | false =>
      rw [pidView, getGroupForPid, findPid?_pidOf_eq_none_iff.mpr huse]
      rfl

theorem findPid?_of_ne {pid : Int32} (hpid : ∀ i, pidOf i ≠ pid)
    (s : GroupPolicyStore) : s.findPid? pid = none := by
  rw [Option.eq_none_iff_forall_ne_some]
  exact fun i hfound => hpid i (findPid?_eq_some_iff.mp hfound).2

theorem pidView_of_ne {pid : Int32} (hpid : ∀ i, pidOf i ≠ pid)
    (s : GroupPolicyStore) : s.pidView pid = none := by
  rw [pidView, getGroupForPid, findPid?_of_ne hpid, Option.map_none]

theorem pidView_update {s s' : GroupPolicyStore} {i : Fin kMaxPidGroupMap}
    {entry : PidEntry} (hmap : s'.pidMap = Function.update s.pidMap i entry)
    (huse : entry.inUse = true) :
    s'.pidView = Function.update s.pidView (pidOf i)
      (some (CString.text entry.groupId)) := by
  funext pid
  by_cases hindex : ∃ j, pidOf j = pid
  · obtain ⟨j, rfl⟩ := hindex
    rw [pidView_pidOf, hmap]
    by_cases hj : j = i
    · rw [hj, Function.update_self, Function.update_self, if_pos huse]
    · rw [Function.update_of_ne hj,
        Function.update_of_ne (mt pidOf_inj.mp hj), pidView_pidOf]
  · have hnone : ∀ j, pidOf j ≠ pid := fun j hj => hindex ⟨j, hj⟩
    rw [Function.update_of_ne (hnone i).symm, pidView_of_ne hnone,
      pidView_of_ne hnone]

theorem freePid?_eq_none {s : GroupPolicyStore} (h : s.freePid? = none)
    (i : Fin kMaxPidGroupMap) : (s.pidMap i).inUse = true := by
  simpa using Slots.first?_eq_none_iff.mp h i

theorem freePid?_eq_some {s : GroupPolicyStore} {i : Fin kMaxPidGroupMap}
    (h : s.freePid? = some i) :
    (s.pidMap i).inUse = false ∧ ∀ j, j < i → (s.pidMap j).inUse = true := by
  simpa using Slots.first?_eq_some_iff.mp h

def writtenPid (pid : Int32) (s : GroupPolicyStore) : Fin kMaxPidGroupMap :=
  match s.findPid? pid with
  | some i => i
  | none =>
      match s.freePid? with
      | some i => i
      | none => s.oldestPid

/-- Every buffer has room for an id and a NUL. -/
def PidBuffers (s : GroupPolicyStore) : Prop :=
  ∀ i, (s.pidMap i).groupId.length = kMaxGroupIdLen + 1

/-- What a call writes: the id cut after `kMaxGroupIdLen` bytes. -/
structure WrittenEntry (groupId : Bytes) (entry : PidEntry) : Prop where
  inUse : entry.inUse = true
  length : entry.groupId.length = kMaxGroupIdLen + 1
  text : CString.text entry.groupId =
    (CString.text groupId).take kMaxGroupIdLen

theorem setGroupId_written {entry : PidEntry} {used : Bool}
    (hlength : entry.groupId.length = kMaxGroupIdLen + 1)
    (hused : used = true) (groupId : Bytes) (now : UInt64) :
    WrittenEntry groupId
      { setGroupId groupId now entry with inUse := used } where
  inUse := hused
  length := by
    have hroom : kMaxGroupIdLen ≤ entry.groupId.length := by omega
    rw [setGroupId, List.length_set, CString.length_strncpy hroom, hlength]
  text := CString.text_strncpy_set (by omega) groupId

def evictedPid (s : GroupPolicyStore) : GroupPolicyStore :=
  let s := s.evictOldestPidEntry
  { s with stats := { s.stats with
    pidmapEvictions := s.stats.pidmapEvictions + 1 } }

theorem pidMap_evictedPid (s : GroupPolicyStore) :
    s.evictedPid.pidMap = Function.update s.pidMap s.oldestPid
      { s.pidMap s.oldestPid with inUse := false } := rfl

theorem freePid?_evictedPid {s : GroupPolicyStore}
    (hfull : ∀ i, (s.pidMap i).inUse = true) :
    s.evictedPid.freePid? = some s.oldestPid := by
  rw [freePid?, pidMap_evictedPid]
  exact Slots.first?_free_update PidEntry.inUse hfull rfl

theorem mapPidToGroup_written {s : GroupPolicyStore} (h : s.PidBuffers)
    (pid : Int32) (groupId : Bytes) (clock : UInt64) :
    (s.mapPidToGroup pid groupId clock).1 = true ∧
      ∃ entry, WrittenEntry groupId entry ∧
        (s.mapPidToGroup pid groupId clock).2.pidMap =
          Function.update s.pidMap (s.writtenPid pid) entry := by
  have hblank : ({} : PidEntry).groupId.length = kMaxGroupIdLen + 1 :=
    List.length_replicate
  have hnew := setGroupId_written hblank rfl groupId (s.getTime clock)
  rw [mapPidToGroup, writtenPid]
  cases hfind : s.findPid? pid with
  | some i =>
      have huse := (findPid?_eq_some_iff.mp hfind).1
      exact ⟨rfl, _, setGroupId_written (h i) huse groupId (s.getTime clock),
        rfl⟩
  | none =>
      cases hfree : s.freePid? with
      | some i => exact ⟨rfl, _, hnew, rfl⟩
      | none =>
          have hfull := freePid?_eq_none hfree
          have hevicted := freePid?_evictedPid hfull
          rw [evictedPid] at hevicted
          simp only [hevicted]
          exact ⟨trivial, _, hnew, Function.update_idem _ _ _⟩

/-- The pid is the index of a slot in use or of the first free slot. -/
def Placed (s : GroupPolicyStore) (pid : Int32) : Prop :=
  ∃ i, pidOf i = pid ∧
    ((s.pidMap i).inUse = true ∨ ∀ j, j < i → (s.pidMap j).inUse = true)

theorem pidOf_writtenPid_iff {s : GroupPolicyStore} {pid : Int32} :
    pidOf (s.writtenPid pid) = pid ↔ s.Placed pid := by
  rw [writtenPid]
  cases hfind : s.findPid? pid with
  | some i =>
      obtain ⟨huse, hpid⟩ := findPid?_eq_some_iff.mp hfind
      exact ⟨fun _ => ⟨i, hpid, .inl huse⟩, fun _ => hpid⟩
  | none =>
      cases hfree : s.freePid? with
      | some i =>
          obtain ⟨hunused, hbelow⟩ := freePid?_eq_some hfree
          constructor
          · exact fun hpid => ⟨i, hpid, .inr hbelow⟩
          · rintro ⟨k, rfl, hk⟩
            have hkfree := findPid?_pidOf_eq_none_iff.mp hfind
            rcases lt_trichotomy i k with hless | hsame | hgreater
            · simp [hkfree] at hk
              simp [hk i hless] at hunused
            · rw [hsame]
            · simp [hbelow k hgreater] at hkfree
      | none =>
          have hfull := freePid?_eq_none hfree
          have hnowhere : ∀ i, pidOf i ≠ pid := by
            rintro i rfl
            have hifree := findPid?_pidOf_eq_none_iff.mp hfind
            rw [hfull i] at hifree
            contradiction
          constructor
          · exact fun hpid => absurd hpid (hnowhere _)
          · rintro ⟨i, hpid, _⟩
            exact absurd hpid (hnowhere i)

/-- A pid that is no index takes a free slot if there is one. -/
theorem writtenPid_free {s : GroupPolicyStore} {pid : Int32}
    (hpid : ∀ j, pidOf j ≠ pid) {i : Fin kMaxPidGroupMap}
    (hunused : (s.pidMap i).inUse = false) :
    (s.pidMap (s.writtenPid pid)).inUse = false := by
  rw [writtenPid, findPid?_of_ne hpid]
  cases hfree : s.freePid? with
  | some j => exact (freePid?_eq_some hfree).1
  | none => exact absurd (freePid?_eq_none hfree i) (by simp [hunused])

/-- The law of a map: the call maps its pid and leaves the others, except that
a new pid takes the place of the oldest one when all slots are in use. -/
inductive MapsPid (pid : Int32) (groupId : Bytes)
    (s s' : GroupPolicyStore) : Prop
  | kept (hroom : (∃ i, (s.pidMap i).inUse = false) ∨ (s.pidView pid).isSome)
      (hview : s'.pidView =
        Function.update s.pidView pid (some (CString.text groupId)))
  | evicted (hfull : ∀ i, (s.pidMap i).inUse = true)
      (hnew : s.pidView pid = none) (k : Fin kMaxPidGroupMap)
      (holdest : ∀ j, (s.pidMap k).lastSeenNs ≤ (s.pidMap j).lastSeenNs)
      (hview : s'.pidView =
        Function.update (Function.update s.pidView (pidOf k) none) pid
          (some (CString.text groupId)))

theorem MapsPid.pidView_self {pid : Int32} {groupId : Bytes}
    {s s' : GroupPolicyStore} (h : MapsPid pid groupId s s') :
    s'.pidView pid = some (CString.text groupId) := by
  cases h with
  | kept _ hview => rw [hview, Function.update_self]
  | evicted _ _ _ _ hview => rw [hview, Function.update_self]

theorem isSome_pidView_iff {s : GroupPolicyStore} {pid : Int32} :
    (s.pidView pid).isSome ↔ ∃ i, pidOf i = pid ∧ (s.pidMap i).inUse = true := by
  rw [pidView, getGroupForPid, Option.isSome_map, Option.isSome_iff_exists]
  simp only [findPid?_eq_some_iff, and_comm]

/-- A call keeps the law if and only if its pid is placed and its group fits. -/
theorem mapPidToGroup_mapsPid_iff {s : GroupPolicyStore} (h : s.PidBuffers)
    (pid : Int32) (groupId : Bytes) (clock : UInt64) :
    MapsPid pid groupId s (s.mapPidToGroup pid groupId clock).2 ↔
      s.Placed pid ∧ (CString.text groupId).length ≤ kMaxGroupIdLen := by
  obtain ⟨_, entry, hentry, hwritten⟩ :=
    mapPidToGroup_written h pid groupId clock
  have hview := pidView_update hwritten hentry.inUse
  rw [hentry.text] at hview
  rw [← pidOf_writtenPid_iff]
  constructor
  · intro hmaps
    have hself := hmaps.pidView_self
    have hplaced : pidOf (s.writtenPid pid) = pid := by
      by_contra hother
      rw [hview, Function.update_of_ne (Ne.symm hother)] at hself
      have hsome := isSome_pidView_iff.mp (Option.isSome_of_eq_some hself)
      obtain ⟨i, hpid, huse⟩ := hsome
      exact hother (pidOf_writtenPid_iff.mpr ⟨i, hpid, .inl huse⟩)
    rw [hview, hplaced, Function.update_self, Option.some.injEq,
      List.take_eq_self_iff] at hself
    exact ⟨hplaced, hself⟩
  · rintro ⟨hplaced, hlength⟩
    rw [hplaced, List.take_of_length_le hlength] at hview
    refine .kept ?_ hview
    by_cases hused : (s.pidMap (s.writtenPid pid)).inUse = true
    · exact .inr (isSome_pidView_iff.mpr ⟨_, hplaced, hused⟩)
    · exact .inl ⟨_, by simpa using hused⟩

def LawfulCall (s : GroupPolicyStore) : StoreOp → Prop
  | .mapPidToGroup pid groupId clock =>
      let answer := s.mapPidToGroup pid groupId clock
      0 ≤ pid → answer.1 = true → MapsPid pid groupId s answer.2
  | _ => True

/-- The pid of the call is placed and its group fits. A negative pid, of which
the law says nothing, only does no harm when every slot is in use. -/
def KeyedCall (s : GroupPolicyStore) : StoreOp → Prop
  | .mapPidToGroup pid groupId _ =>
      if 0 ≤ pid then
        s.Placed pid ∧ (CString.text groupId).length ≤ kMaxGroupIdLen
      else
        ∀ i, (s.pidMap i).inUse = true
  | _ => True

end GroupPolicyStore

/-! Runs of the store, with the pids mapped since the last `clear`. -/

def mappedStep (mapped : List Int32) : StoreOp → List Int32
  | .mapPidToGroup pid _ _ => pid :: mapped
  | .clear => []
  | _ => mapped

def mappedPids (ops : List StoreOp) : List Int32 := ops.foldl mappedStep []

theorem mappedPids_concat (ops : List StoreOp) (op : StoreOp) :
    mappedPids (ops ++ [op]) = mappedStep (mappedPids ops) op := by
  simp [mappedPids]

theorem runStore_concat (ops : List StoreOp) (op : StoreOp) :
    runStore (ops ++ [op]) = (runStore ops).step op :=
  storeMachine.value_run_concat {} ops op

/-- The pid map of a store is a map keyed by pid: every call keeps the law of
such a map, and a pid that was not mapped since the last `clear` has no
group. -/
structure PidMapLaw (ops : List StoreOp) : Prop where
  calls : storeMachine.Along GroupPolicyStore.LawfulCall {} ops
  unmapped : ∀ before, before <+: ops → ∀ pid, pid ∉ mappedPids before →
    (runStore before).pidView pid = none

namespace GroupPolicyStore

/-- The slots in use are those of the pids mapped. -/
structure PidsTracked (s : GroupPolicyStore) (mapped : List Int32) : Prop where
  buffers : s.PidBuffers
  inUse_iff : ∀ i, (s.pidMap i).inUse = true ↔ pidOf i ∈ mapped

theorem pidsTracked_blank {s : GroupPolicyStore}
    (hmap : s.pidMap = fun _ => {}) : s.PidsTracked [] where
  buffers i := by
    rw [hmap]
    exact List.length_replicate
  inUse_iff i := by simp [hmap]

theorem Upserted.pidMap_eq {msg : GroupApplyMsg} {clock : UInt64}
    {s : GroupPolicyStore} {answer : Bool × GroupPolicyStore}
    (h : Upserted msg clock s answer) : answer.2.pidMap = s.pidMap := by
  cases h <;> rfl

theorem pidMap_tick (s : GroupPolicyStore) : s.tick.pidMap = s.pidMap := by
  unfold tick
  split <;> rfl

namespace PidsTracked

variable {s s' : GroupPolicyStore} {mapped : List Int32}
  (h : s.PidsTracked mapped)

include h

theorem of_pidMap (hmap : s'.pidMap = s.pidMap) : s'.PidsTracked mapped where
  buffers := by simpa only [PidBuffers, hmap] using h.buffers
  inUse_iff := by simpa only [hmap] using h.inUse_iff

theorem pidView_eq_none {pid : Int32} (hpid : pid ∉ mapped) :
    s.pidView pid = none := by
  by_cases hindex : ∃ i, pidOf i = pid
  · obtain ⟨i, rfl⟩ := hindex
    rw [pidView_pidOf, if_neg fun huse => hpid ((h.inUse_iff i).mp huse)]
  · exact pidView_of_ne (fun i hi => hindex ⟨i, hi⟩) s

/-- A slot written for the pid of its index, or in a full table, is the slot of
a pid mapped. -/
theorem write {pid : Int32} {i : Fin kMaxPidGroupMap} {entry : PidEntry}
    {groupId : Bytes} (hentry : WrittenEntry groupId entry)
    (hmap : s'.pidMap = Function.update s.pidMap i entry)
    (hslot : pidOf i = pid ∨
      (∀ j, pidOf j ≠ pid) ∧ (s.pidMap i).inUse = true) :
    s'.PidsTracked (pid :: mapped) where
  buffers j := by
    rw [hmap]
    by_cases hj : j = i
    · rw [hj, Function.update_self]
      exact hentry.length
    · rw [Function.update_of_ne hj]
      exact h.buffers j
  inUse_iff j := by
    rw [hmap, List.mem_cons]
    by_cases hj : j = i
    · subst hj
      rw [Function.update_self, ← h.inUse_iff j]
      rcases hslot with hpid | ⟨_, huse⟩
      · simp [hentry.inUse, hpid]
      · simp [hentry.inUse, huse]
    · rw [Function.update_of_ne hj, ← h.inUse_iff j]
      have hother : pidOf j ≠ pid := by
        rcases hslot with hpid | ⟨hnever, _⟩
        · rw [← hpid, Ne, pidOf_inj]
          exact hj
        · exact hnever j
      simp [hother]

theorem step {op : StoreOp} (hkeyed : s.KeyedCall op) :
    (s.step op).PidsTracked (mappedStep mapped op) := by
  cases op with
  | upsertGroup groupId msg clock =>
      exact h.of_pidMap (upsertGroup_upserted groupId msg clock s).pidMap_eq
  | tick => exact h.of_pidMap (pidMap_tick s)
  | setTimeForTest seq => exact h.of_pidMap rfl
  | clear => exact pidsTracked_blank rfl
  | mapPidToGroup pid groupId clock =>
      obtain ⟨_, entry, hentry, hwritten⟩ :=
        mapPidToGroup_written h.buffers pid groupId clock
      refine h.write hentry hwritten ?_
      rw [KeyedCall] at hkeyed
      split at hkeyed
      · exact .inl (pidOf_writtenPid_iff.mpr hkeyed.1)
      · rename_i hnegative
        exact .inr ⟨pidOf_ne hnegative, hkeyed _⟩

theorem lawfulCall_of_keyed {op : StoreOp} (hkeyed : s.KeyedCall op) :
    s.LawfulCall op := by
  cases op with
  | mapPidToGroup pid groupId clock =>
      intro hpid _
      rw [KeyedCall, if_pos hpid] at hkeyed
      exact (mapPidToGroup_mapsPid_iff h.buffers pid groupId clock).mpr hkeyed
  | upsertGroup | tick | setTimeForTest | clear => trivial

/-- A negative pid takes the first free slot and so maps another pid. -/
theorem keyedCall_of_lawful {op : StoreOp} (hlawful : s.LawfulCall op)
    (hunmapped : ∀ pid, pid ∉ mappedStep mapped op →
      (s.step op).pidView pid = none) :
    s.KeyedCall op := by
  cases op with
  | upsertGroup | tick | setTimeForTest | clear => trivial
  | mapPidToGroup pid groupId clock =>
      obtain ⟨hok, entry, hentry, hwritten⟩ :=
        mapPidToGroup_written h.buffers pid groupId clock
      rw [KeyedCall]
      by_cases hpid : 0 ≤ pid
      · rw [if_pos hpid]
        exact (mapPidToGroup_mapsPid_iff h.buffers pid groupId clock).mp
          (hlawful hpid hok)
      · rw [if_neg hpid]
        have hnever := pidOf_ne hpid
        intro i
        by_contra hunused
        have hfree := writtenPid_free hnever (by simpa using hunused)
        have hfresh : pidOf (s.writtenPid pid) ∉ pid :: mapped := by
          rw [List.mem_cons, ← h.inUse_iff]
          simp [hnever, hfree]
        have hview := hunmapped _ hfresh
        rw [GroupPolicyStore.step, pidView_update hwritten hentry.inUse,
          Function.update_self] at hview
        contradiction

end PidsTracked

end GroupPolicyStore

open GroupPolicyStore

theorem pidsTracked_of_keyed (ops : List StoreOp)
    (hkeyed : storeMachine.Along KeyedCall {} ops) :
    (runStore ops).PidsTracked (mappedPids ops) := by
  induction ops using List.reverseRecOn with
  | nil => exact pidsTracked_blank rfl
  | append_singleton ops op ih =>
      obtain ⟨hbefore, hlast⟩ := Machine.along_concat.mp hkeyed
      rw [runStore_concat, mappedPids_concat]
      exact (ih hbefore).step hlast

theorem PidMapLaw.front {ops : List StoreOp} {op : StoreOp}
    (h : PidMapLaw (ops ++ [op])) : PidMapLaw ops where
  calls := (Machine.along_concat.mp h.calls).1
  unmapped before hbefore :=
    h.unmapped before (hbefore.trans (List.prefix_append ops [op]))

/-- The pid map keeps the law of a map keyed by pid in exactly the runs whose
calls are all keyed. -/
theorem pidMapLaw_iff (ops : List StoreOp) :
    PidMapLaw ops ↔ storeMachine.Along KeyedCall {} ops := by
  induction ops using List.reverseRecOn with
  | nil =>
      refine ⟨fun _ => trivial, fun _ => ⟨trivial, fun before hbefore => ?_⟩⟩
      rw [List.prefix_nil.mp hbefore]
      exact fun pid hpid => (pidsTracked_blank rfl).pidView_eq_none hpid
  | append_singleton ops op ih =>
      rw [Machine.along_concat]
      constructor
      · intro hlaw
        have hkeyed := ih.mp hlaw.front
        have htracked := pidsTracked_of_keyed ops hkeyed
        refine ⟨hkeyed, htracked.keyedCall_of_lawful
          (Machine.along_concat.mp hlaw.calls).2 ?_⟩
        have hunmapped := hlaw.unmapped _ List.prefix_rfl
        rwa [runStore_concat, mappedPids_concat] at hunmapped
      · rintro ⟨hkeyed, hlast⟩
        have hlaw := ih.mpr hkeyed
        have htracked := pidsTracked_of_keyed ops hkeyed
        refine ⟨Machine.along_concat.mpr
          ⟨hlaw.calls, htracked.lawfulCall_of_keyed hlast⟩, ?_⟩
        intro before hbefore pid hpid
        rcases List.prefix_concat_iff.mp hbefore with rfl | hearlier
        · rw [runStore_concat]
          rw [mappedPids_concat] at hpid
          exact (htracked.step hlast).pidView_eq_none hpid
        · exact hlaw.unmapped before hearlier pid hpid

/-- The first pid mapped has to be zero: any other one takes its slot. -/
theorem first_pid_takes_slot_zero : ¬ ∀ ops, PidMapLaw ops := by
  intro hclaim
  have hlawful := (hclaim [.mapPidToGroup 5 (bytes "web") 1]).calls.1
  have hempty : GroupPolicyStore.PidsTracked {} [] := pidsTracked_blank rfl
  obtain ⟨hok, _⟩ := mapPidToGroup_written hempty.buffers 5 (bytes "web") 1
  obtain ⟨⟨i, hpid, huse | hbelow⟩, _⟩ :=
    (mapPidToGroup_mapsPid_iff hempty.buffers 5 (bytes "web") 1).mp
      (hlawful (by decide) hok)
  · exact Bool.false_ne_true huse
  · have hi : (i : Nat) = 5 := by
      have hint := congrArg Int32.toInt hpid
      rw [toInt_pidOf] at hint
      exact Int.ofNat.inj hint
    exact Bool.false_ne_true
      (hbelow ⟨0, by decide⟩ (Fin.lt_def.mpr (by simp [hi])))

end HeidiKernel.Gov
