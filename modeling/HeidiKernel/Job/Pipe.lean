import HeidiKernel.Job.Capture
import Mathlib.Logic.Function.Basic

namespace HeidiKernel

open HeidiKernel.Transition

/-! The runner together with the processes of its jobs. A pipe is a queue of
bytes, of which one read takes at most 4096; the processes write whenever they
like, also between the calls a tick makes for one job. -/

structure Pipe where
  written : Bytes := []
  taken : Nat := 0
  writable : Bool := true

/-- What had been written when the leader exited. -/
structure Exit where
  status : WaitStatus
  written : Stream → Bytes

structure Proc where
  pipe : Stream → Pipe := fun _ => {}
  exit : Option Exit := none

inductive ProcAction
  | write (stream : Stream) (bytes : Bytes)
  | hangUp (stream : Stream)
  | exit (status : WaitStatus)

namespace Pipe

def write (bytes : Bytes) (pipe : Pipe) : Pipe :=
  if pipe.writable then
    { pipe with written := pipe.written ++ bytes }
  else
    pipe

def hangUp (pipe : Pipe) : Pipe := { pipe with writable := false }

/-- `read(fd, buffer, 4096)` of a non-blocking pipe: an error while it is empty
and somebody may still write, the empty string at its end. -/
def read (pipe : Pipe) : Option Bytes :=
  let pending := pipe.written.drop pipe.taken
  if pending = [] then
    if pipe.writable then none else some []
  else
    some (pending.take 4096)

theorem getD_read (pipe : Pipe) :
    pipe.read.getD [] = (pipe.written.drop pipe.taken).take 4096 := by
  unfold read
  by_cases hpending : pipe.written.drop pipe.taken = []
  · cases hwritable : pipe.writable <;> simp [hpending]
  · simp [hpending]

end Pipe

namespace Proc

def act (proc : Proc) : ProcAction → Proc
  | .write stream bytes =>
      { proc with
        pipe := Function.update proc.pipe stream
          ((proc.pipe stream).write bytes) }
  | .hangUp stream =>
      { proc with
        pipe := Function.update proc.pipe stream (proc.pipe stream).hangUp }
  | .exit status =>
      if proc.exit.isSome then
        proc
      else
        { proc with
          exit := some ⟨status, fun stream => (proc.pipe stream).written⟩ }

def acts (proc : Proc) (actions : List ProcAction) : Proc :=
  actions.foldl act proc

def wait (proc : Proc) : WaitAnswer :=
  match proc.exit with
  | some exit => .collected exit.status
  | none => .stillRunning

def consume (events : List Event) (proc : Proc) : Proc :=
  { proc with
    pipe := fun stream =>
      { proc.pipe stream with
        taken := (proc.pipe stream).taken +
          (readBytes stream events).length } }

/-- The snapshots taken at the exit are still in the pipes. -/
def Sound (proc : Proc) : Prop :=
  ∀ exit, proc.exit = some exit → ∀ stream,
    (exit.written stream).IsPrefix (proc.pipe stream).written

/-- Time only adds to what has been written, and takes nothing. -/
structure Grows (before after : Proc) : Prop where
  written : ∀ stream,
    (before.pipe stream).written.IsPrefix (after.pipe stream).written
  taken : ∀ stream, (after.pipe stream).taken = (before.pipe stream).taken
  exit : ∀ exit, before.exit = some exit → after.exit = some exit

theorem Grows.refl (proc : Proc) : Grows proc proc :=
  ⟨fun _ => List.prefix_rfl, fun _ => rfl, fun _ h => h⟩

theorem Grows.trans {first second third : Proc} (h : Grows first second)
    (h' : Grows second third) : Grows first third where
  written := fun stream => (h.written stream).trans (h'.written stream)
  taken := fun stream => (h'.taken stream).trans (h.taken stream)
  exit := fun exit hexit => h'.exit exit (h.exit exit hexit)

theorem grows_update {proc : Proc} {stream : Stream} {pipe : Pipe}
    (hwritten : (proc.pipe stream).written.IsPrefix pipe.written)
    (htaken : pipe.taken = (proc.pipe stream).taken) :
    Grows proc { proc with pipe := Function.update proc.pipe stream pipe } := by
  refine ⟨fun other => ?_, fun other => ?_, fun _ h => h⟩ <;>
    by_cases hother : other = stream
  · subst hother
    simpa using hwritten
  · simp [hother]
  · subst hother
    simpa using htaken
  · simp [hother]

theorem grows_act (proc : Proc) (action : ProcAction) :
    Grows proc (proc.act action) := by
  cases action with
  | write stream bytes =>
      apply grows_update <;> unfold Pipe.write <;> split <;> simp
  | hangUp stream => exact grows_update List.prefix_rfl rfl
  | exit status =>
      cases hexit : proc.exit with
      | some exit => simpa [act, hexit] using Grows.refl proc
      | none =>
          refine ⟨fun _ => ?_, fun _ => ?_, ?_⟩ <;> simp [act, hexit]

theorem grows_acts (proc : Proc) (actions : List ProcAction) :
    Grows proc (proc.acts actions) := by
  induction actions generalizing proc with
  | nil => exact .refl proc
  | cons action actions ih => exact (grows_act proc action).trans (ih _)

theorem Sound.act {proc : Proc} (h : proc.Sound) (action : ProcAction) :
    (proc.act action).Sound := by
  intro exit hexit stream
  cases hold : proc.exit with
  | some earlier =>
      have hgrows := grows_act proc action
      obtain rfl : earlier = exit :=
        Option.some.inj ((hgrows.exit earlier hold).symm.trans hexit)
      exact (h earlier hold stream).trans (hgrows.written stream)
  | none =>
      cases action with
      | write other bytes => simp [Proc.act, hold] at hexit
      | hangUp other => simp [Proc.act, hold] at hexit
      | exit status =>
          simp only [Proc.act, hold, Option.isSome_none, Bool.false_eq_true,
            if_false, Option.some.injEq] at hexit ⊢
          subst hexit
          exact List.prefix_rfl

theorem Sound.acts {proc : Proc} (h : proc.Sound)
    (actions : List ProcAction) : (proc.acts actions).Sound := by
  induction actions generalizing proc with
  | nil => exact h
  | cons action actions ih => exact ih (h.act action)

end Proc

/-- What the processes of a job do around the three calls of its scan. -/
structure Interference where
  beforeStdout : List ProcAction := []
  beforeStderr : List ProcAction := []
  beforeWait : List ProcAction := []

namespace Interference

def beforeRead (during : Interference) : Stream → List ProcAction
  | .stdout => during.beforeStdout
  | .stderr => during.beforeStdout ++ during.beforeStderr

def all (during : Interference) : List ProcAction :=
  during.beforeStdout ++ during.beforeStderr ++ during.beforeWait

end Interference

namespace Proc

/-- The pipe a read of the scan sees. Of the reads made before, only those of
the same pipe would matter, and there are none. -/
def pipeAt (proc : Proc) (during : Interference) (stream : Stream) : Pipe :=
  (proc.acts (during.beforeRead stream)).pipe stream

def answers (proc : Proc) (during : Interference) (base : ScanAnswers) :
    ScanAnswers :=
  { base with
    stdoutRead := (proc.pipeAt during .stdout).read
    stderrRead := (proc.pipeAt during .stderr).read
    wait := (proc.acts during.all).wait }

theorem read_answers (proc : Proc) (during : Interference)
    (base : ScanAnswers) (stream : Stream) :
    (proc.answers during base).read stream =
      (proc.pipeAt during stream).read := by
  cases stream <;> rfl

theorem pipeAt_grows (proc : Proc) (during : Interference)
    (stream : Stream) :
    (proc.pipeAt during stream).written.IsPrefix
      ((proc.acts during.all).pipe stream).written := by
  have hlater : ∃ later, during.all = during.beforeRead stream ++ later := by
    cases stream with
    | stdout =>
        exact ⟨during.beforeStderr ++ during.beforeWait,
          List.append_assoc _ _ _⟩
    | stderr => exact ⟨during.beforeWait, rfl⟩
  obtain ⟨later, hlater⟩ := hlater
  rw [hlater, acts, List.foldl_append]
  exact (grows_acts _ later).written stream

end Proc

structure PipedRunner where
  runner : JobRunner
  world : String → Proc := fun _ => {}

/-- A call on the runner, or a step of the processes between two calls. -/
inductive PipedOp
  | env (id : String) (action : ProcAction)
  | submit (command : String) (limits : JobLimits) (now : SystemTime)
      (layout : Layout)
  | cancel (id : String) (answers : CancelAnswers)
  | tick (t : Tick) (during : String → Interference)

namespace PipedRunner

/-- The processes once the start loop of a tick has run: every successful spawn
comes with two new pipes. -/
def spawnedWorld (t : Tick) (s : PipedRunner) : String → Proc := fun id =>
  if id ∈ s.runner.startedJobs t ∧ JobRunner.succeeds t id then {}
  else s.world id

/-- The tick with the answers of the pipes and of the leaders. -/
def answeredTick (t : Tick) (during : String → Interference)
    (s : PipedRunner) : Tick :=
  { t with
    scan := fun id => (s.spawnedWorld t id).answers (during id) (t.scan id) }

@[simp] theorem scan_answeredTick (t : Tick)
    (during : String → Interference) (s : PipedRunner) (id : String) :
    (s.answeredTick t during).scan id =
      (s.spawnedWorld t id).answers (during id) (t.scan id) := rfl

/-- The call the runner sees. -/
def call? (s : PipedRunner) : PipedOp → Option Op
  | .env .. => none
  | .submit command limits now layout =>
      some (.submit command limits now layout)
  | .cancel id answers => some (.cancel id answers)
  | .tick t during => some (.tick (s.answeredTick t during))

/-- The processes after a step that has made the given calls. -/
def nextWorld (s : PipedRunner) (events : List Event) :
    PipedOp → String → Proc
  | .env id action => Function.update s.world id ((s.world id).act action)
  | .submit .. | .cancel .. => s.world
  | .tick t during => fun id =>
      ((s.spawnedWorld t id).acts (during id).all).consume
        (ownedBy id events)

def step (s : PipedRunner) (op : PipedOp) : Traced Event PipedRunner :=
  match s.call? op with
  | none => pure { s with world := s.nextWorld [] op }
  | some call =>
      let called := s.runner.apply call
      ⟨⟨called.value, s.nextWorld called.events op⟩, called.events⟩

end PipedRunner

def pipedMachine : Machine PipedRunner PipedOp Event where
  step := PipedRunner.step

def runPiped (maxConcurrentJobs : Nat) (ops : List PipedOp) :
    Traced Event PipedRunner :=
  pipedMachine.run ⟨.create maxConcurrentJobs, fun _ => {}⟩ ops

end HeidiKernel
