import HeidiKernel.Job.Basic
import HeidiKernel.Transition.Machine

namespace HeidiKernel

open HeidiKernel.Transition

/-! What the runner does to one job: the body of the start loop, the body of
the scan loop with its three enforcers, and a cancellation. -/

namespace Job

/-- `STARTING`, the call of `spawn_job`, then `RUNNING` or `FAILED`. -/
def start (nowMs : UInt64) (answer : SpawnAnswer) (job : Job) :
    Traced Event Job := do
  Traced.log (.spawnCalled job.id answer)
  match answer with
  | .spawned processGroup leaderStartTime stdoutFd stderrFd =>
      pure { job with
        processGroup
        leaderStartTime := leaderStartTime.getD job.leaderStartTime
        stdoutFd
        stderrFd
        status := .running
        startedAtMs := nowMs }
  | .failed error finishedAt =>
      pure { job with error, finishedAt, status := .failed }

/-- One non-blocking read of a pipe that is still open. -/
def drain (stream : Stream) (answer : Option Bytes) (job : Job) :
    Traced Event Job :=
  if job.fd stream ≠ -1 then do
    Traced.log (.readCalled job.id stream answer)
    match answer with
    | none => pure job
    | some bytes =>
        if bytes.length > 0 then
          pure (job.append bytes stream)
        else do
          Traced.log (.closed job.id stream (job.fd stream))
          pure (job.setFd (-1) stream)
  else
    pure job

def closeRemaining (stream : Stream) (job : Job) : Traced Event Job :=
  if job.fd stream ≠ -1 then do
    Traced.log (.closed job.id stream (job.fd stream))
    pure (job.setFd (-1) stream)
  else
    pure job

/-- The status delivered when `waitpid` collects the leader. It is only called
for a positive process group. -/
def collected? (answers : ScanAnswers) (job : Job) : Option WaitStatus :=
  if 0 < job.processGroup then
    match answers.wait with
    | .collected status => some status
    | .stillRunning | .error => none
  else
    none

def wait (answers : ScanAnswers) (job : Job) : Traced Event (Option WaitStatus) := do
  if 0 < job.processGroup then
    Traced.log (.waitCalled job.id job.processGroup answers.wait)
  pure (job.collected? answers)

def finish (now : SystemTime) (status : WaitStatus) (job : Job) : Job :=
  { job with
    exitCode := status.exitCode
    finishedAt := now
    endedAtMs := now.toMs
    status := if status.exitCode = 0 then .completed else .failed }

def reap (now : SystemTime) (status : WaitStatus) (job : Job) :
    Traced Event Job := do
  let job ← (job.finish now status).closeRemaining .stdout
  job.closeRemaining .stderr

def signalGroup (signal : Signal) (job : Job) : Traced Event Unit :=
  if 0 < job.processGroup then
    Traced.log (.killed job.id job.processGroup signal)
  else
    pure ()

/-- The runtime is a difference of unsigned clock values. -/
def timedOut (nowMs : UInt64) (job : Job) : Bool :=
  nowMs - job.startedAtMs > job.maxRuntimeMs

def enforceJobTimeout (nowMs : UInt64) (now : SystemTime) (job : Job) :
    Traced Event (Bool × Job) :=
  if job.timedOut nowMs then do
    job.signalGroup .sigterm
    pure (true,
      { job with status := .timeout, finishedAt := now, endedAtMs := nowMs })
  else
    pure (false, job)

def enforceJobLogCap (job : Job) : Bool × Job :=
  if job.output.length + job.error.length > job.maxLogBytes then
    let keepBytes := job.maxLogBytes / 2
    let output :=
      if job.output.length > keepBytes then
        job.output.drop (job.output.length - keepBytes)
      else
        job.output
    let remaining := job.maxLogBytes - output.length
    let error :=
      if job.error.length > remaining then
        job.error.drop (job.error.length - remaining)
      else
        job.error
    (true,
      { job with
        output
        error
        logTruncated := true
        bytesWritten := job.maxLogBytes })
  else
    (false, job)

/-- The recorded leader start time is compared only if it is known, the group
is valid and the current start time can be read. -/
def startTimeMismatch (answers : ScanAnswers) (job : Job) : Bool :=
  if job.leaderStartTime ≠ 0 ∧ 0 < job.processGroup then
    match answers.startTime with
    | some startTime => startTime ≠ job.leaderStartTime
    | none => false
  else
    false

-- `inspector_` is never null: the constructor installs one.
def enforceJobProcessCap (nowMs : UInt64) (answers : ScanAnswers) (job : Job) :
    Traced Event (Bool × Job) :=
  if job.startTimeMismatch answers then
    pure (false, job)
  else if answers.processCount < 0 then
    pure (false, job)
  else if answers.processCount > job.maxChildProcesses then do
    job.signalGroup .sigterm
    pure (true,
      { job with
        status := .procLimit
        finishedAt := answers.now
        endedAtMs := nowMs })
  else
    pure (false, job)

/-- The enforcers in their fixed order. The first one that acts ends the scan
of the job. -/
def enforceLimits (nowMs : UInt64) (answers : ScanAnswers) (job : Job) :
    Traced Event Job := do
  let (expired, job) ← job.enforceJobTimeout nowMs answers.now
  if expired then
    pure job
  else
    let (truncated, job) := job.enforceJobLogCap
    if truncated then
      pure job
    else do
      let (_, job) ← job.enforceJobProcessCap nowMs answers
      pure job

def drainBoth (answers : ScanAnswers) (job : Job) : Traced Event Job := do
  let job ← job.drain .stdout answers.stdoutRead
  job.drain .stderr answers.stderrRead

/-- The body of the scan loop of `check_job_limits`. -/
def scan (nowMs : UInt64) (answers : ScanAnswers) (job : Job) :
    Traced Event Job := do
  let job ← job.drainBoth answers
  let status? ← job.wait answers
  match status? with
  | some status => job.reap answers.now status
  | none => job.enforceLimits nowMs answers

/-- `cancel_job` once the job has been found. -/
def cancel (answers : CancelAnswers) (job : Job) : Traced Event Job :=
  let cancelled := { job with
    status := .cancelled
    finishedAt := answers.now
    endedAtMs := answers.now.toMs }
  if job.status = .running then do
    job.signalGroup .sigterm
    job.signalGroup .probe
    if answers.groupAlive then
      job.signalGroup .sigkill
    pure cancelled
  else if job.status = .queued then
    pure cancelled
  else
    pure job

end Job

/-- Everything that can happen to a job after it has been submitted. -/
inductive JobAction
  | start (nowMs : UInt64) (answer : SpawnAnswer)
  | scan (nowMs : UInt64) (answers : ScanAnswers)
  | cancel (answers : CancelAnswers)

def Job.act (job : Job) : JobAction → Traced Event Job
  | .start nowMs answer => job.start nowMs answer
  | .scan nowMs answers => job.scan nowMs answers
  | .cancel answers => job.cancel answers

def jobMachine : Machine Job JobAction Event where
  step := Job.act

end HeidiKernel
