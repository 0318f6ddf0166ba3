import HeidiKernel.Data.Keyed
import HeidiKernel.Governor.ResourceGovernor
import HeidiKernel.Job.Actions

namespace HeidiKernel

open HeidiKernel.Transition
open HeidiKernel.Data

/-! The job runner. The table `jobs_` lists the job objects in its iteration
order; `job_queue_` holds references to them, written as their ids. -/

structure MemStats where
  total : Nat
  available : Nat
  deriving DecidableEq, Repr

structure SystemMetrics where
  cpuUsagePercent : ℚ
  mem : MemStats
  deriving DecidableEq, Repr

structure TickDiagnostics where
  lastDecision : GovernorDecision := .startNow
  lastBlockReason : BlockReason := .none
  lastRetryAfterMs : UInt64 := 0
  lastTickNowMs : UInt64 := 0
  lastTickRunning : Int := 0
  lastTickQueued : Int := 0
  deriving DecidableEq, Repr

structure JobRunner where
  maxConcurrent : Nat
  jobQueue : List String := []
  jobs : List Job := []
  jobCounter : Nat := 0
  lastTickDiagnostics : TickDiagnostics := {}
  jobsStartedThisTick : Nat := 0
  jobsScannedThisTick : Nat := 0
  scanCursor : Nat := 0
  governor : ResourceGovernor := {}
  deriving DecidableEq, Repr

/-- The order in which an `unordered_map` is iterated after an insertion. -/
structure Layout where
  order : List Job → List Job
  perm : ∀ jobs, (order jobs).Perm jobs

/-- The arguments of a tick with the answers of the environment to the calls
made for each job. -/
structure Tick where
  nowMs : UInt64
  metrics : SystemMetrics
  maxStartsPerTick : Nat := 5
  maxLimitScansPerTick : Nat := 10
  spawn : String → SpawnAnswer
  scan : String → ScanAnswers

/-- Conversion of a `size_t` to the `int` parameters of `decide`. -/
def toInt32 (n : Nat) : Int := (BitVec.ofNat 32 n).toInt

def jobId (counter : Nat) : String := "job_" ++ counter.repr

/-- `jobs_[job->id] = job` -/
def insertOrAssign (job : Job) (jobs : List Job) : List Job :=
  if job.id ∈ jobs.map Job.id then
    jobs.map fun other => if other.id = job.id then job else other
  else
    jobs ++ [job]

def newJob (id command : String) (limits : JobLimits) (now : SystemTime) :
    Job where
  id := id
  command := command
  createdAt := now
  maxRuntimeMs := limits.maxRuntimeMs
  maxLogBytes := limits.maxLogBytes
  maxOutputLineBytes := limits.maxOutputLineBytes
  maxChildProcesses := limits.maxChildProcesses

namespace JobRunner

def create (maxConcurrentJobs : Nat) : JobRunner where
  maxConcurrent := maxConcurrentJobs

def submitJob (command : String) (limits : JobLimits) (now : SystemTime)
    (layout : Layout) (r : JobRunner) : Traced Event (String × JobRunner) := do
  let counter := r.jobCounter + 1
  let job := newJob (jobId counter) command limits now
  Traced.log (.submitted job.id)
  pure (job.id,
    { r with
      jobCounter := counter
      jobs := layout.order (insertOrAssign job r.jobs)
      jobQueue := r.jobQueue ++ [job.id] })

def cancelJob (id : String) (answers : CancelAnswers) (r : JobRunner) :
    Traced Event (Bool × JobRunner) :=
  match Keyed.lookup? Job.id id r.jobs with
  | none => pure (false, r)
  | some _ => do
      let jobs ← Keyed.modify Job.id (Job.cancel answers) id r.jobs
      pure (true, { r with jobs })

def getJobStatus (id : String) (r : JobRunner) : Option Job :=
  Keyed.lookup? Job.id id r.jobs

def startJob (t : Tick) (job : Job) : Traced Event Job :=
  job.start t.nowMs (t.spawn job.id)

/-- The loop starting queued jobs. It stops at an empty queue, at the start
budget of the tick or at the concurrency cap; only successes count. -/
def startLoop (t : Tick) (maxConcurrent running : Nat) :
    List String → Nat → List Job →
      Traced Event (List String × Nat × List Job)
  | [], started, jobs => pure ([], started, jobs)
  | id :: queue, started, jobs =>
      if started < t.maxStartsPerTick ∧ running + started < maxConcurrent then do
        let jobs ← Keyed.modify Job.id (startJob t) id jobs
        if (t.spawn id).succeeded then
          startLoop t maxConcurrent running queue (started + 1) jobs
        else
          startLoop t maxConcurrent running queue started jobs
      else
        pure (id :: queue, started, jobs)

def runningCount (r : JobRunner) : Nat := r.jobs.countP Job.isActive

def queuedCount (r : JobRunner) : Nat := r.jobs.countP Job.isQueued

def memPct (metrics : SystemMetrics) : ℚ :=
  if metrics.mem.total > 0 then
    (metrics.mem.available : ℚ) / metrics.mem.total * 100
  else
    0

/-- The answer of the governor at the beginning of a tick. -/
def admission (r : JobRunner) (metrics : SystemMetrics) : GovernorResult :=
  r.governor.decide metrics.cpuUsagePercent (memPct metrics)
    (toInt32 r.runningCount) (toInt32 r.queuedCount)

/-- The counters reset and the diagnostics recorded before a tick starts
anything. -/
def diagnose (t : Tick) (r : JobRunner) : JobRunner :=
  let result := r.admission t.metrics
  { r with
    lastTickDiagnostics := {
      lastDecision := result.decision
      lastBlockReason := result.reason
      lastRetryAfterMs := result.retryAfterMs
      lastTickNowMs := t.nowMs
      lastTickRunning := toInt32 r.runningCount
      lastTickQueued := toInt32 r.queuedCount }
    jobsStartedThisTick := 0
    jobsScannedThisTick := 0 }

/-- A tick up to the call of `check_job_limits`. -/
def startPhase (t : Tick) (r : JobRunner) : Traced Event JobRunner :=
  if (r.admission t.metrics).decision = .startNow then do
    let (jobQueue, started, jobs) ←
      startLoop t r.maxConcurrent r.runningCount r.jobQueue 0 r.jobs
    pure { r.diagnose t with jobQueue, jobs, jobsStartedThisTick := started }
  else
    pure (r.diagnose t)

/-- `running_jobs`, in the iteration order of the table. -/
def runningJobs (r : JobRunner) : List String :=
  (r.jobs.filter Job.isActive).map Job.id

/-- The jobs a scan visits: up to `maxJobsToCheck` of the running ones, round
robin from the cursor. -/
def selectedJobs (maxJobsToCheck : Nat) (r : JobRunner) : List String :=
  let running := r.runningJobs
  (List.range (min running.length maxJobsToCheck)).filterMap fun i =>
    running[(r.scanCursor + i) % running.length]?

def scanJob (nowMs : UInt64) (scan : String → ScanAnswers) (job : Job) :
    Traced Event Job :=
  job.scan nowMs (scan job.id)

def checkJobLimits (nowMs : UInt64) (maxJobsToCheck : Nat)
    (scan : String → ScanAnswers) (r : JobRunner) : Traced Event JobRunner :=
  let numRunning := r.runningJobs.length
  if numRunning = 0 then
    pure r
  else do
    let selected := r.selectedJobs maxJobsToCheck
    let checked := selected.length
    let jobs ← Keyed.modifyAll Job.id (scanJob nowMs scan) selected r.jobs
    pure { r with
      jobs
      scanCursor := (r.scanCursor + checked) % numRunning
      jobsScannedThisTick := checked }

def tick (t : Tick) (r : JobRunner) : Traced Event JobRunner := do
  let r ← r.startPhase t
  r.checkJobLimits t.nowMs t.maxLimitScansPerTick t.scan

end JobRunner

/-- One call on the runner together with what its environment answers. -/
inductive Op
  | submit (command : String) (limits : JobLimits) (now : SystemTime)
      (layout : Layout)
  | cancel (id : String) (answers : CancelAnswers)
  | tick (t : Tick)

def JobRunner.apply (r : JobRunner) : Op → Traced Event JobRunner
  | .submit command limits now layout =>
      Prod.snd <$> r.submitJob command limits now layout
  | .cancel id answers => Prod.snd <$> r.cancelJob id answers
  | .tick t => r.tick t

def runnerMachine : Machine JobRunner Op Event where
  step := JobRunner.apply

def runJobs (maxConcurrentJobs : Nat) (ops : List Op) :
    Traced Event JobRunner :=
  runnerMachine.run (.create maxConcurrentJobs) ops

end HeidiKernel
