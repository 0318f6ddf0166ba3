import HeidiKernel.Data.Bytes
import HeidiKernel.Transition.Traced
import Mathlib.Data.Int.Init

namespace HeidiKernel

/-! The data of a job and everything the job runner asks of its environment.
Sizes of containers and strings are natural numbers; the `uint64_t` clock
values keep their width because they are subtracted. -/

/-- A `system_clock` reading, in nanoseconds since the epoch. -/
abbrev SystemTime := Int

/-- `duration_cast<milliseconds>(t.time_since_epoch()).count()`, stored in an
unsigned field. -/
def SystemTime.toMs (t : SystemTime) : UInt64 := UInt64.ofInt (t.tdiv 1000000)

inductive JobStatus
  | queued
  | starting
  | running
  | completed
  | failed
  | cancelled
  | timeout
  | procLimit
  deriving DecidableEq, Repr

structure JobLimits where
  maxRuntimeMs : UInt64 := 600000
  maxLogBytes : Nat := 10485760
  maxOutputLineBytes : Nat := 65536
  maxChildProcesses : Int := 64
  deriving DecidableEq, Repr

structure Job where
  id : String
  command : String
  status : JobStatus := .queued
  exitCode : Int := -1
  output : Bytes := []
  error : Bytes := []
  logTruncated : Bool := false
  bytesWritten : Nat := 0
  createdAt : SystemTime
  finishedAt : SystemTime := 0
  startedAtMs : UInt64 := 0
  endedAtMs : UInt64 := 0
  processGroup : Int := -1
  leaderStartTime : UInt64 := 0
  maxRuntimeMs : UInt64 := 600000
  maxLogBytes : Nat := 10485760
  maxOutputLineBytes : Nat := 65536
  maxChildProcesses : Int := 64
  stdoutFd : Int := -1
  stderrFd : Int := -1
  deriving DecidableEq, Repr

inductive Stream
  | stdout
  | stderr
  deriving DecidableEq, Repr

namespace Job

/-- RUNNING or STARTING: the jobs `tick` counts and `check_job_limits` scans. -/
def isActive (job : Job) : Bool :=
  job.status = .running || job.status = .starting

def isQueued (job : Job) : Bool := job.status = .queued

def fd (job : Job) : Stream → Int
  | .stdout => job.stdoutFd
  | .stderr => job.stderrFd

def setFd (job : Job) (value : Int) : Stream → Job
  | .stdout => { job with stdoutFd := value }
  | .stderr => { job with stderrFd := value }

def captured (job : Job) : Stream → Bytes
  | .stdout => job.output
  | .stderr => job.error

/-- `output.append(buffer, n); bytes_written += n` and its `error` twin. -/
def append (job : Job) (bytes : Bytes) : Stream → Job
  | .stdout =>
      { job with
        output := job.output ++ bytes
        bytesWritten := job.bytesWritten + bytes.length }
  | .stderr =>
      { job with
        error := job.error ++ bytes
        bytesWritten := job.bytesWritten + bytes.length }

end Job

namespace JobStatus

def isTerminal : JobStatus → Bool
  | .completed | .failed | .cancelled | .timeout | .procLimit => true
  | .queued | .starting | .running => false

end JobStatus

inductive WaitStatus
  | exited (code : UInt8)
  | signaled
  deriving DecidableEq, Repr

/-- `WIFEXITED(status) ? WEXITSTATUS(status) : -1` -/
def WaitStatus.exitCode : WaitStatus → Int
  | .exited code => code.toNat
  | .signaled => -1

/-- What `waitpid(pid, &status, WNOHANG)` can return for a positive pid: that
pid with a status, zero, or -1. -/
inductive WaitAnswer
  | collected (status : WaitStatus)
  | stillRunning
  | error
  deriving DecidableEq, Repr

/-- What `spawn_job` leaves behind. On success it has filled in the process
group, the start time if it could be read, and both read ends. -/
inductive SpawnAnswer
  | spawned (processGroup : Int) (leaderStartTime : Option UInt64)
      (stdoutFd stderrFd : Int)
  | failed (error : Bytes) (finishedAt : SystemTime)
  deriving DecidableEq, Repr

namespace SpawnAnswer

def succeeded : SpawnAnswer → Bool
  | .spawned .. => true
  | .failed .. => false

def processGroup? : SpawnAnswer → Option Int
  | .spawned processGroup .. => some processGroup
  | .failed .. => none

/-- The read end a successful spawn hands over for a stream. -/
def fd? : SpawnAnswer → Stream → Option Int
  | .spawned _ _ stdoutFd _, .stdout => some stdoutFd
  | .spawned _ _ _ stderrFd, .stderr => some stderrFd
  | .failed .., _ => none

end SpawnAnswer

/-- The answers to the calls made while one job is scanned. A read returns the
bytes it delivers, an empty list being end of file, or nothing on error. -/
structure ScanAnswers where
  stdoutRead : Option Bytes := none
  stderrRead : Option Bytes := none
  wait : WaitAnswer := .stillRunning
  startTime : Option UInt64 := none
  processCount : Int := 0
  now : SystemTime := 0
  deriving DecidableEq, Repr

def ScanAnswers.read (answers : ScanAnswers) : Stream → Option Bytes
  | .stdout => answers.stdoutRead
  | .stderr => answers.stderrRead

structure CancelAnswers where
  groupAlive : Bool := false
  now : SystemTime := 0
  deriving DecidableEq, Repr

inductive Signal
  | probe
  | sigterm
  | sigkill
  deriving DecidableEq, Repr

/-- The calls the runner makes on the outside world, each with the job on whose
behalf it is made, and the ids `submit_job` returns. -/
inductive Event
  | submitted (job : String)
  | spawnCalled (job : String) (answer : SpawnAnswer)
  | readCalled (job : String) (stream : Stream) (answer : Option Bytes)
  | closed (job : String) (stream : Stream) (fd : Int)
  | waitCalled (job : String) (pid : Int) (answer : WaitAnswer)
  | killed (job : String) (processGroup : Int) (signal : Signal)
  deriving DecidableEq, Repr

namespace Event

def owner : Event → String
  | .submitted job => job
  | .spawnCalled job _ => job
  | .readCalled job _ _ => job
  | .closed job _ _ => job
  | .waitCalled job _ _ => job
  | .killed job _ _ => job

/-- The process or process group a signal or a `waitpid` addresses. -/
def target? : Event → Option Int
  | .waitCalled _ pid _ => some pid
  | .killed _ processGroup _ => some processGroup
  | _ => none

end Event

end HeidiKernel
