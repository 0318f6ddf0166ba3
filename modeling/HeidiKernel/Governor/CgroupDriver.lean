import HeidiKernel.Data.CString
import HeidiKernel.Data.Scanf
import HeidiKernel.Governor.ProcessGovernor

namespace HeidiKernel.Gov

open HeidiKernel.Data
open HeidiKernel.Data.Numeric
open HeidiKernel.Transition

/-! The driver of the control groups, which makes a group for a process and
writes the limits of its policies into the files of the group. -/

inductive Controller
  | cpu
  | memory
  | pids
  deriving DecidableEq, Repr

namespace Controller

def bit : Controller → UInt8
  | .cpu => 1
  | .memory => 2
  | .pids => 4

def name : Controller → Bytes
  | .cpu => bytes "cpu"
  | .memory => bytes "memory"
  | .pids => bytes "pids"

def file : Controller → Bytes
  | .cpu => bytes "cpu.max"
  | .memory => bytes "memory.max"
  | .pids => bytes "pids.max"

end Controller

def hasCapability (caps : UInt8) (controller : Controller) : Bool :=
  caps &&& controller.bit ≠ 0

structure CgroupDriver where
  available : Bool := false
  enabled : Bool := false
  capability : UInt8 := 0
  basePath : Bytes := []
  deriving DecidableEq, Repr

/-- What the driver does to the file system. A file is opened, written once and
closed again; the answer is the number of bytes that were taken. -/
inductive CgroupEvent
  | made (path : Bytes)
  | stored (path text : Bytes) (written : Int)
  | removed (path : Bytes)
  deriving DecidableEq, Repr

/-- What `detect` is told: an `errno`, or success. -/
structure DetectCalls where
  cgroup2 : Bool
  controllers : Option Bytes
  mkdir : Option Int := none
  access : Bool := true

structure GroupResult extends ApplyResult where
  applied : UInt8 := 0
  deriving DecidableEq, Repr

/-- What `apply` is told: an `errno`, or success; of a write the number of bytes
and the `errno` it leaves. -/
structure GroupCalls where
  mkdir : Option Int := none
  openFile : Bytes → Option Int := fun _ => none
  write : Bytes → Bytes → Int × Int := fun _ text => (text.length, 0)
  strerror : Int → Bytes

def slash : UInt8 := 0x2f

def kDefaultCgroupPath : Bytes := bytes "/sys/fs/cgroup/heidi"

def kCpuPeriod : UInt64 := 100000

def eexist : Int := 17

def isDelimiter (c : UInt8) : Bool := c = 0x20 || c = 0x0a

def strtok (text : Bytes) : List Bytes :=
  (text.splitOnP isDelimiter).filter (· ≠ [])

/-- The controllers that are named in the first line, as far as it fits into the
buffer. -/
def readCapability (text : Bytes) : UInt8 :=
  let names := strtok (CString.text (fgets 255 text))
  let has (controller : Controller) : UInt8 :=
    if controller.name ∈ names then controller.bit else 0
  has .cpu ||| has .memory ||| has .pids

def quota (pct : UInt8) : UInt64 := pct.toUInt64 * kCpuPeriod / 100

/-- The limit a policy asks for, as it is written. -/
def limitText (cpu : CpuPolicy) (mem : MemPolicy) (pids : PidsPolicy) :
    Controller → Option Bytes
  | .cpu => cpu.maxPct.map fun pct =>
      print 10 (quota pct).toNat ++ bytes " " ++
        print 10 kCpuPeriod.toNat ++ bytes "\n"
  | .memory => mem.maxBytes.map fun max => print 10 max.toNat ++ bytes "\n"
  | .pids => pids.max.map fun max => print 10 max.toNat ++ bytes "\n"

namespace CgroupDriver

def createBaseDir (calls : DetectCalls) (s : CgroupDriver) :
    Traced CgroupEvent (Bool × CgroupDriver) := do
  let s := { s with basePath := kDefaultCgroupPath }
  Traced.log (.made s.basePath)
  match calls.mkdir with
  | some errno => pure (errno = eexist && calls.access, s)
  | none => pure (calls.access, s)

def detect (calls : DetectCalls) (s : CgroupDriver) :
    Traced CgroupEvent (Bool × CgroupDriver) :=
  if !calls.cgroup2 then
    pure (false, s)
  else
    match calls.controllers with
    | none => pure (false, s)
    | some text =>
        let s := { s with capability := readCapability text }
        if s.capability = 0 then pure (false, s) else s.createBaseDir calls

def construct (calls : DetectCalls) : Traced CgroupEvent CgroupDriver :=
  let s : CgroupDriver := {}
  if !s.enabled then
    pure { s with available := false }
  else do
    let (available, s) ← s.detect calls
    pure { s with available }

def pidPath (s : CgroupDriver) (pid : Int32) : Bytes :=
  s.basePath ++ slash :: printInt pid.toInt

def procsPath (s : CgroupDriver) (pid : Int32) : Bytes :=
  s.pidPath pid ++ slash :: bytes "cgroup.procs"

def limitPath (s : CgroupDriver) (pid : Int32) (controller : Controller) :
    Bytes :=
  s.pidPath pid ++ slash :: controller.file

/-- One of the three blocks of `apply`. What the write answers is ignored. -/
def writeLimit (calls : GroupCalls) (s : CgroupDriver) (pid : Int32)
    (controller : Controller) (text? : Option Bytes) (applied : UInt8) :
    Traced CgroupEvent UInt8 :=
  let path := s.limitPath pid controller
  match text? with
  | some text =>
      if hasCapability s.capability controller then
        match calls.openFile path with
        | some _ => pure applied
        | none => do
            Traced.log (.stored path text (calls.write path text).1)
            pure (applied ||| controller.bit)
      else
        pure applied
  | none => pure applied

def apply (calls : GroupCalls) (s : CgroupDriver) (pid : Int32)
    (cpu : CpuPolicy) (mem : MemPolicy) (pids : PidsPolicy) :
    Traced CgroupEvent GroupResult :=
  if !s.available then
    pure { success := true }
  else do
    Traced.log (.made (s.pidPath pid))
    match calls.mkdir.filter (· ≠ eexist) with
    | some errno =>
        pure {
          err := errno
          errorDetail :=
            bytes "failed to create cgroup: " ++ calls.strerror errno }
    | none =>
        match calls.openFile (s.procsPath pid) with
        | some errno =>
            pure {
              err := errno
              errorDetail := bytes "failed to open cgroup.procs: " ++
                calls.strerror errno }
        | none => do
            let text := printInt pid.toInt
            let (written, errno) := calls.write (s.procsPath pid) text
            Traced.log (.stored (s.procsPath pid) text written)
            if written ≠ text.length then
              pure {
                err := errno
                errorDetail := bytes "failed to write pid to cgroup.procs" }
            else do
              let limit := limitText cpu mem pids
              let applied ← s.writeLimit calls pid .cpu (limit .cpu) 0
              let applied ←
                s.writeLimit calls pid .memory (limit .memory) applied
              let applied ← s.writeLimit calls pid .pids (limit .pids) applied
              pure { success := true, applied }

/-- `cleanup`, and whether `rmdir` found the group without processes. -/
def cleanup (s : CgroupDriver) (pid : Int32) (removed : Bool) :
    Traced CgroupEvent Unit :=
  if s.available && removed then
    Traced.log (.removed (s.pidPath pid))
  else
    pure ()

end CgroupDriver

inductive CgroupMove
  | setEnabled (enabled : Bool)
  | apply (pid : Int32) (cpu : CpuPolicy) (mem : MemPolicy) (pids : PidsPolicy)
      (calls : GroupCalls)
  | cleanup (pid : Int32) (removed : Bool)

def CgroupDriver.step (s : CgroupDriver) :
    CgroupMove → Traced CgroupEvent CgroupDriver
  | .setEnabled enabled => pure { s with enabled }
  | .apply pid cpu mem pids calls => do
      let _ ← s.apply calls pid cpu mem pids
      pure s
  | .cleanup pid removed => do
      s.cleanup pid removed
      pure s

def cgroupMachine : Machine CgroupDriver CgroupMove CgroupEvent where
  step := CgroupDriver.step

/-! What `detect` reads from `cgroup.controllers`. -/

structure ControllerName (name : Bytes) : Prop where
  nonempty : name ≠ []
  plain : ∀ c ∈ name, c ≠ 0 ∧ isDelimiter c = false

def controllersLine (names : List Bytes) : Bytes :=
  [0x20].intercalate names ++ [0x0a]

theorem strtok_append (front back : Bytes) {c : UInt8}
    (hc : isDelimiter c = true) :
    strtok (front ++ c :: back) = strtok front ++ strtok back := by
  rw [strtok, List.splitOnP_append_cons _ _ hc, List.filter_append]
  rfl

theorem ControllerName.strtok {name : Bytes} (h : ControllerName name) :
    strtok name = [name] := by
  rw [Gov.strtok, List.splitOnP_eq_singleton fun c hc => (h.plain c hc).2]
  simp [h.nonempty]

theorem strtok_line {names : List Bytes}
    (hnames : ∀ name ∈ names, ControllerName name) :
    strtok (controllersLine names) = names := by
  have hspaced : strtok ([0x20].intercalate names) = names := by
    induction names with
    | nil => rfl
    | cons name names ih =>
        obtain ⟨hname, hrest⟩ := List.forall_mem_cons.mp hnames
        cases names with
        | nil => simpa using hname.strtok
        | cons next names =>
            rw [List.intercalate_cons_cons, List.append_assoc,
              List.singleton_append, strtok_append _ _ rfl, hname.strtok,
              ih hrest, List.singleton_append]
  rw [controllersLine, strtok_append _ _ rfl, hspaced]
  exact List.append_nil names

theorem mem_intercalate {names : List Bytes} {c : UInt8}
    (hc : c ∈ [0x20].intercalate names) :
    c = 0x20 ∨ ∃ name ∈ names, c ∈ name := by
  induction names with
  | nil => contradiction
  | cons name names ih =>
      cases names with
      | nil => exact .inr ⟨name, List.mem_singleton_self name, by simpa using hc⟩
      | cons next names =>
          rw [List.intercalate_cons_cons, List.mem_append, List.mem_append] at hc
          rcases hc with (hname | hblank) | hrest
          · exact .inr ⟨name, List.mem_cons_self, hname⟩
          · exact .inl (List.mem_singleton.mp hblank)
          · refine (ih hrest).imp id fun ⟨name, hmem, hname⟩ => ?_
            exact ⟨name, List.mem_cons_of_mem _ hmem, hname⟩

theorem hasCapability_or (a b : UInt8) (controller : Controller) :
    hasCapability (a ||| b) controller =
      (hasCapability a controller || hasCapability b controller) := by
  have hsplit : (a ||| b) &&& controller.bit =
      (a &&& controller.bit) ||| (b &&& controller.bit) :=
    UInt8.toBitVec_inj.mp BitVec.and_or_distrib_right
  rw [hasCapability, hsplit, Bool.eq_iff_iff]
  simp only [hasCapability, ne_eq, UInt8.or_eq_zero_iff, not_and_or,
    decide_eq_true_iff, Bool.or_eq_true]

theorem hasCapability_ite (p : Prop) [Decidable p]
    (controller controller' : Controller) :
    hasCapability (if p then controller.bit else 0) controller' =
      (decide p && decide (controller = controller')) := by
  split_ifs with hp
  · rw [decide_eq_true hp, Bool.true_and]
    cases controller <;> cases controller' <;> decide
  · rw [decide_eq_false hp, Bool.false_and]
    cases controller' <;> decide

theorem readCapability_line {names : List Bytes}
    (hnames : ∀ name ∈ names, ControllerName name)
    (hlength : (controllersLine names).length ≤ 255) (rest : Bytes)
    (controller : Controller) :
    hasCapability (readCapability (controllersLine names ++ rest)) controller =
      true ↔ controller.name ∈ names := by
  have hplain : ∀ c ∈ [0x20].intercalate names, c ≠ 0 ∧ c ≠ 0x0a := by
    intro c hc
    rcases mem_intercalate hc with rfl | ⟨name, hmem, hname⟩
    · decide
    · obtain ⟨hzero, hdelimiter⟩ := (hnames name hmem).plain c hname
      refine ⟨hzero, ?_⟩
      rintro rfl
      contradiction
  have hline : CString.text (fgets 255 (controllersLine names ++ rest)) =
      controllersLine names := by
    rw [controllersLine, List.length_append, List.length_singleton] at hlength
    rw [controllersLine, List.append_assoc, List.singleton_append,
      fgets_line (fun hnewline => (hplain _ hnewline).2 rfl) (by omega)]
    refine List.takeWhile_eq_self_iff.mpr fun c hc => decide_eq_true ?_
    rcases List.mem_append.mp hc with hname | hnewline
    · exact (hplain c hname).1
    · rw [List.mem_singleton.mp hnewline]
      decide
  rw [readCapability, hline, strtok_line hnames]
  simp only [hasCapability_or, hasCapability_ite]
  cases controller <;> simp

theorem readCapability_eq_zero_iff (text : Bytes) :
    readCapability text = 0 ↔
      ∀ controller, hasCapability (readCapability text) controller = false := by
  constructor
  · intro hzero controller
    rw [hzero]
    cases controller <;> rfl
  · intro hnone
    have hname : ∀ controller : Controller, controller.name ∉
        strtok (CString.text (fgets 255 text)) := by
      intro controller hmem
      have hhas := hnone controller
      simp only [readCapability, hasCapability_or, hasCapability_ite] at hhas
      cases controller <;> simp [hmem] at hhas
    simp [readCapability, hname]

/-- A driver that detects the groups can use the controllers that the file names,
if there are any and its directory is there. -/
theorem CgroupDriver.detect_line (s : CgroupDriver) {calls : DetectCalls}
    {names : List Bytes} {rest : Bytes} (hgroup : calls.cgroup2 = true)
    (hfile : calls.controllers = some (controllersLine names ++ rest))
    (hnames : ∀ name ∈ names, ControllerName name)
    (hlength : (controllersLine names).length ≤ 255) :
    (∀ controller : Controller,
      hasCapability (s.detect calls).value.2.capability controller = true ↔
        controller.name ∈ names) ∧
      ((s.detect calls).value.1 = true ↔
        (∃ controller : Controller, controller.name ∈ names) ∧
          (calls.mkdir = none ∨ calls.mkdir = some eexist) ∧
          calls.access = true) := by
  have hread := readCapability_line hnames hlength rest
  have hzero := readCapability_eq_zero_iff (controllersLine names ++ rest)
  unfold detect
  simp only [hgroup, hfile]
  generalize readCapability (controllersLine names ++ rest) = caps at hread hzero
  rcases em (caps = 0) with hcaps | hcaps
  · have hnone : ¬ ∃ controller : Controller, controller.name ∈ names := by
      rintro ⟨controller, hmem⟩
      have hhas := (hread controller).mpr hmem
      rw [hzero.mp hcaps controller] at hhas
      contradiction
    rw [if_neg (by simp), if_pos hcaps]
    exact ⟨hread, iff_of_false (by simp) fun h => hnone h.1⟩
  · have hsome : ∃ controller : Controller, controller.name ∈ names := by
      by_contra hnone
      refine hcaps (hzero.mpr fun controller => ?_)
      rw [Bool.eq_false_iff, Ne, hread]
      exact fun hmem => hnone ⟨controller, hmem⟩
    rw [if_neg (by simp), if_neg hcaps, createBaseDir]
    cases calls.mkdir with
    | none => exact ⟨hread, by simp [hsome]⟩
    | some errno => exact ⟨hread, by simp [hsome]⟩

theorem cpuset_detected :
    let calls : DetectCalls := {
      cgroup2 := true
      controllers := some (controllersLine [bytes "cpuset", bytes "memory"]) }
    (∀ controller : Controller,
      hasCapability ((CgroupDriver.detect calls {}).value.2.capability)
          controller = true ↔
        controller.name ∈ [bytes "cpuset", bytes "memory"]) ∧
      ((CgroupDriver.detect calls {}).value.1 = true ↔
        (∃ controller : Controller,
          controller.name ∈ [bytes "cpuset", bytes "memory"]) ∧
          (calls.mkdir = none ∨ calls.mkdir = some eexist) ∧
          calls.access = true) := by
  intro calls
  have hname : ∀ name ∈ [bytes "cpuset", bytes "memory"],
      name ≠ [] ∧ ∀ c ∈ name, c ≠ 0 ∧ isDelimiter c = false := by
    decide +kernel
  exact CgroupDriver.detect_line {} rfl
    (congrArg some (List.append_nil _).symm)
    (fun name hmem => ⟨(hname name hmem).1, (hname name hmem).2⟩)
    (by decide +kernel)

namespace CgroupDriver

/-- What a driver that is not available makes of a call. -/
theorem step_unavailable {s : CgroupDriver} (h : s.available = false)
    (move : CgroupMove) :
    (s.step move).value.available = false ∧ (s.step move).events = [] := by
  cases move with
  | setEnabled enabled => exact ⟨h, rfl⟩
  | apply pid cpu mem pids answers => exact ⟨h, by simp [step, apply, h]⟩
  | cleanup pid removed => exact ⟨h, by simp [step, cleanup, h]⟩

theorem run_unavailable {s : CgroupDriver} (h : s.available = false)
    (moves : List CgroupMove) :
    (cgroupMachine.run s moves).value.available = false ∧
      (cgroupMachine.run s moves).events = [] :=
  Machine.history_run (m := cgroupMachine)
    (I := fun s history => s.available = false ∧ history = [])
    (fun s history move ⟨havailable, hhistory⟩ => by
      obtain ⟨hnext, hevents⟩ := step_unavailable havailable move
      exact ⟨hnext, by rw [hhistory]; exact hevents⟩)
    ⟨h, rfl⟩ moves

/-- The driver that is constructed is never available, also after it has been
enabled. It touches no control group, and reports a success without a limit,
whatever it is told. -/
theorem construct_inert (calls : DetectCalls) (moves : List CgroupMove) :
    let run := cgroupMachine.run (construct calls).value moves
    (construct calls).events = [] ∧ run.events = [] ∧
      run.value.available = false ∧
      ∀ answers pid cpu mem pids,
        run.value.apply answers pid cpu mem pids = pure { success := true } := by
  intro run
  obtain ⟨havailable, hevents⟩ :=
    run_unavailable (s := (construct calls).value) rfl moves
  refine ⟨rfl, hevents, havailable, fun answers pid cpu mem pids => ?_⟩
  simp [apply, run, havailable]

end CgroupDriver

end HeidiKernel.Gov
