import HeidiKernel.Data.CString
import HeidiKernel.Data.Slots
import HeidiKernel.GovRule.Message
import HeidiKernel.Transition.Machine
import Mathlib.Algebra.Group.Nat.Defs

namespace HeidiKernel.Gov

open HeidiKernel.Data
open HeidiKernel.Transition

/-! The store of group policies: a table of groups and a table of pids, both of
fixed size. Readings of the steady clock are arguments of the calls. -/

def kMaxGroupIdLen : Nat := 32

def kMaxGroups : Nat := 256

def kMaxPidGroupMap : Nat := 8192

theorem kMaxGroups_pos : 0 < kMaxGroups := Nat.succ_pos _

theorem kMaxPidGroupMap_pos : 0 < kMaxPidGroupMap := Nat.succ_pos _

inductive ViolationAction
  | none
  | warn
  | softKill
  | hardKill
  deriving DecidableEq, Repr

/-! The fields of a message that the store reads. -/

structure GroupMemPolicy where
  maxBytes : Option UInt64 := .none
  highBytes : Option UInt64 := .none
  deriving DecidableEq, Repr

structure Timeouts where
  applyDeadlineMs : Option UInt32 := .none
  deriving DecidableEq, Repr

structure GroupApplyMsg where
  group : Option Bytes := .none
  cpu : Option CpuPolicy := .none
  mem : Option GroupMemPolicy := .none
  pids : Option PidsPolicy := .none
  action : Option ViolationAction := .none
  timeouts : Option Timeouts := .none
  deriving DecidableEq, Repr

structure GroupSettings where
  cpuMaxPct : Option UInt8 := .none
  memMaxBytes : Option UInt64 := .none
  memHighBytes : Option UInt64 := .none
  pidsMax : Option UInt32 := .none
  defaultAction : Option ViolationAction := .none
  applyDeadlineMs : Option UInt32 := .none
  deriving DecidableEq, Repr

structure GroupPolicy where
  groupId : Bytes := List.replicate (kMaxGroupIdLen + 1) 0
  lastUpdateNs : UInt64 := 0
  settings : GroupSettings := {}
  deriving DecidableEq, Repr

structure GroupEntry where
  policy : GroupPolicy := {}
  inUse : Bool := false
  deriving DecidableEq, Repr

structure PidEntry where
  groupId : Bytes := List.replicate (kMaxGroupIdLen + 1) 0
  lastSeenNs : UInt64 := 0
  inUse : Bool := false
  deriving DecidableEq, Repr

structure StoreStats where
  groupEvictions : UInt64 := 0
  pidmapEvictions : UInt64 := 0
  deriving DecidableEq, Repr

structure GroupPolicyStore where
  groups : Fin kMaxGroups → GroupEntry := fun _ => {}
  pidMap : Fin kMaxPidGroupMap → PidEntry := fun _ => {}
  groupCount : Nat := 0
  pidMapCount : Nat := 0
  stats : StoreStats := {}
  testSeq : UInt64 := 0

def GroupApplyMsg.settings (msg : GroupApplyMsg) : GroupSettings where
  cpuMaxPct := msg.cpu.bind CpuPolicy.maxPct
  memMaxBytes := msg.mem.bind GroupMemPolicy.maxBytes
  memHighBytes := msg.mem.bind GroupMemPolicy.highBytes
  pidsMax := msg.pids.bind PidsPolicy.max
  defaultAction := msg.action
  applyDeadlineMs := msg.timeouts.bind Timeouts.applyDeadlineMs

/-- Each setting that is provided, over the former ones. -/
def GroupSettings.override (provided before : GroupSettings) : GroupSettings where
  cpuMaxPct := provided.cpuMaxPct.or before.cpuMaxPct
  memMaxBytes := provided.memMaxBytes.or before.memMaxBytes
  memHighBytes := provided.memHighBytes.or before.memHighBytes
  pidsMax := provided.pidsMax.or before.pidsMax
  defaultAction := provided.defaultAction.or before.defaultAction
  applyDeadlineMs := provided.applyDeadlineMs.or before.applyDeadlineMs

namespace GroupPolicyStore

def kTimeIncrement : UInt64 := 1000000000

def getTime (clock : UInt64) (s : GroupPolicyStore) : UInt64 :=
  if s.testSeq ≠ 0 then s.testSeq else clock

def tick (s : GroupPolicyStore) : GroupPolicyStore :=
  if s.testSeq ≠ 0 then { s with testSeq := s.testSeq + kTimeIncrement } else s

def setTimeForTest (seq : UInt64) (s : GroupPolicyStore) : GroupPolicyStore :=
  { s with testSeq := seq }

def clear (s : GroupPolicyStore) : GroupPolicyStore :=
  { s with
    groups := fun _ => {}
    pidMap := fun _ => {}
    groupCount := 0
    pidMapCount := 0
    stats := {} }

/-- The slot a loop over the groups compares with an id and finds first. -/
def findGroup? (groupId : Bytes) (s : GroupPolicyStore) :
    Option (Fin kMaxGroups) :=
  Slots.first? fun i => (s.groups i).inUse &&
    CString.strncmpEq kMaxGroupIdLen (s.groups i).policy.groupId groupId

def freeGroup? (s : GroupPolicyStore) : Option (Fin kMaxGroups) :=
  Slots.first? fun i => !(s.groups i).inUse

def oldestGroup (s : GroupPolicyStore) : Fin kMaxGroups :=
  Slots.oldest kMaxGroups_pos (2 ^ 64 - 1) (fun i => (s.groups i).inUse)
    fun i => (s.groups i).policy.lastUpdateNs.toNat

def evictOldestGroup (s : GroupPolicyStore) : GroupPolicyStore :=
  { s with
    groups := Function.update s.groups s.oldestGroup
      { s.groups s.oldestGroup with inUse := false }
    groupCount := if s.groupCount > 0 then s.groupCount - 1 else s.groupCount }

def newGroup (gid : Bytes) (now : UInt64) : GroupEntry :=
  let blank : GroupEntry := {}
  { policy := {
      groupId := (CString.strncpy gid.length blank.policy.groupId gid).set
        gid.length 0
      lastUpdateNs := now }
    inUse := true }

def insertGroup (gid : Bytes) (clock : UInt64) (i : Fin kMaxGroups)
    (s : GroupPolicyStore) : GroupPolicyStore :=
  { s with
    groups := Function.update s.groups i (newGroup gid (s.getTime clock))
    groupCount := s.groupCount + 1 }

def updateGroup (msg : GroupApplyMsg) (clock : UInt64) (i : Fin kMaxGroups)
    (s : GroupPolicyStore) : GroupPolicyStore :=
  let entry := s.groups i
  { s with
    groups := Function.update s.groups i
      { entry with
        policy := { entry.policy with
          lastUpdateNs := s.getTime clock
          settings := msg.settings.override entry.policy.settings } } }

-- The id passed beside the message is never read.
def upsertGroup (_groupId : Bytes) (msg : GroupApplyMsg) (clock : UInt64)
    (s : GroupPolicyStore) : Bool × GroupPolicyStore :=
  match msg.group with
  | none => (false, s)
  | some gid =>
      if gid.length > kMaxGroupIdLen then
        (false, s)
      else
        match s.findGroup? gid with
        | some i => (true, s.updateGroup msg clock i)
        | none =>
            match s.freeGroup? with
            | some i => (true, s.insertGroup gid clock i)
            | none =>
                let s := s.evictOldestGroup
                let s := { s with stats := { s.stats with
                  groupEvictions := s.stats.groupEvictions + 1 } }
                match s.freeGroup? with
                | some i => (true, s.insertGroup gid clock i)
                | none => (false, s)

/-- The slot of a pid, if it is in use: the one whose index is the pid. -/
def findPid? (pid : Int32) (s : GroupPolicyStore) :
    Option (Fin kMaxPidGroupMap) :=
  Slots.first? fun i => (s.pidMap i).inUse && decide (Int32.ofNat i = pid)

def freePid? (s : GroupPolicyStore) : Option (Fin kMaxPidGroupMap) :=
  Slots.first? fun i => !(s.pidMap i).inUse

def oldestPid (s : GroupPolicyStore) : Fin kMaxPidGroupMap :=
  Slots.oldest kMaxPidGroupMap_pos (2 ^ 64 - 1)
    (fun i => (s.pidMap i).inUse) fun i => (s.pidMap i).lastSeenNs.toNat

def evictOldestPidEntry (s : GroupPolicyStore) : GroupPolicyStore :=
  { s with
    pidMap := Function.update s.pidMap s.oldestPid
      { s.pidMap s.oldestPid with inUse := false }
    pidMapCount :=
      if s.pidMapCount > 0 then s.pidMapCount - 1 else s.pidMapCount }

/-- `strncpy` of the id into a buffer, closed by a NUL at its end. -/
def setGroupId (groupId : Bytes) (now : UInt64) (entry : PidEntry) : PidEntry :=
  { entry with
    groupId := (CString.strncpy kMaxGroupIdLen entry.groupId groupId).set
      kMaxGroupIdLen 0
    lastSeenNs := now }

def insertPid (groupId : Bytes) (clock : UInt64) (i : Fin kMaxPidGroupMap)
    (s : GroupPolicyStore) : GroupPolicyStore :=
  let entry := setGroupId groupId (s.getTime clock) {}
  { s with
    pidMap := Function.update s.pidMap i { entry with inUse := true }
    pidMapCount := s.pidMapCount + 1 }

def mapPidToGroup (pid : Int32) (groupId : Bytes) (clock : UInt64)
    (s : GroupPolicyStore) : Bool × GroupPolicyStore :=
  match s.findPid? pid with
  | some i =>
      let entry := setGroupId groupId (s.getTime clock) (s.pidMap i)
      (true, { s with pidMap := Function.update s.pidMap i entry })
  | none =>
      match s.freePid? with
      | some i => (true, s.insertPid groupId clock i)
      | none =>
          let s := s.evictOldestPidEntry
          let s := { s with stats := { s.stats with
            pidmapEvictions := s.stats.pidmapEvictions + 1 } }
          match s.freePid? with
          | some i => (true, s.insertPid groupId clock i)
          | none => (false, s)

def getGroup (groupId : Bytes) (s : GroupPolicyStore) : Option GroupPolicy :=
  (s.findGroup? groupId).map fun i => (s.groups i).policy

/-- The string the returned pointer points to. -/
def getGroupForPid (pid : Int32) (s : GroupPolicyStore) : Option Bytes :=
  (s.findPid? pid).map fun i => CString.text (s.pidMap i).groupId

end GroupPolicyStore

/-- One call on the store with the clock reading it makes. -/
inductive StoreOp
  | upsertGroup (groupId : Bytes) (msg : GroupApplyMsg) (clock : UInt64)
  | mapPidToGroup (pid : Int32) (groupId : Bytes) (clock : UInt64)
  | tick
  | setTimeForTest (seq : UInt64)
  | clear

def GroupPolicyStore.step (s : GroupPolicyStore) :
    StoreOp → GroupPolicyStore
  | .upsertGroup groupId msg clock => (s.upsertGroup groupId msg clock).2
  | .mapPidToGroup pid groupId clock => (s.mapPidToGroup pid groupId clock).2
  | .tick => s.tick
  | .setTimeForTest seq => s.setTimeForTest seq
  | .clear => s.clear

def storeMachine : Machine GroupPolicyStore StoreOp Empty :=
  .silent GroupPolicyStore.step

def runStore (ops : List StoreOp) : GroupPolicyStore :=
  (storeMachine.run {} ops).value

end HeidiKernel.Gov
