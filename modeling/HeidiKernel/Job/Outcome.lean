import HeidiKernel.Job.Identity

namespace HeidiKernel

open HeidiKernel.Transition

/-! How the scan of one job ends. The scan first reads both pipes and polls the
leader; what follows is one of five endings. -/

inductive ScanOutcome
  | reaped (status : WaitStatus)
  | expired
  | truncated
  | overCap
  | kept
  deriving DecidableEq, Repr

/-- The lifecycle: one step of a job's status. -/
inductive JobStatus.Next : JobStatus → JobStatus → Prop
  | launched : Next .queued .running
  | launchFailed : Next .queued .failed
  | withdrawn : Next .queued .cancelled
  | completed : Next .running .completed
  | failed : Next .running .failed
  | timeout : Next .running .timeout
  | procLimit : Next .running .procLimit
  | stopped : Next .running .cancelled

theorem JobStatus.not_next_queued (before : JobStatus) :
    ¬before.Next .queued := by
  intro h
  cases h

theorem JobStatus.not_next_starting (before : JobStatus) :
    ¬before.Next .starting := by
  intro h
  cases h

/-- The status an ending leaves behind. -/
def ScanOutcome.status (before : JobStatus) :
    ScanOutcome → JobStatus
  | .reaped status => if status.exitCode = 0 then .completed else .failed
  | .expired => .timeout
  | .overCap => .procLimit
  | .truncated | .kept => before

namespace Job

def exceedsLogCap (job : Job) : Bool :=
  job.output.length + job.error.length > job.maxLogBytes

def exceedsProcessCap (answers : ScanAnswers) (job : Job) : Bool :=
  !job.startTimeMismatch answers &&
    decide (0 ≤ answers.processCount ∧
      job.maxChildProcesses < answers.processCount)

/-- Which ending a job reaches once its pipes have been read. -/
def scanOutcome (nowMs : UInt64) (answers : ScanAnswers) (job : Job) :
    ScanOutcome :=
  match job.collected? answers with
  | some status => .reaped status
  | none =>
      if job.timedOut nowMs then
        .expired
      else if job.exceedsLogCap then
        .truncated
      else if job.exceedsProcessCap answers then
        .overCap
      else
        .kept

/-- End a job by a signal to its group, without closing or collecting
anything. -/
def terminate (status : JobStatus) (nowMs : UInt64) (now : SystemTime)
    (job : Job) : Traced Event Job := do
  job.signalGroup .sigterm
  pure { job with status, finishedAt := now, endedAtMs := nowMs }

def conclude (nowMs : UInt64) (answers : ScanAnswers) (job : Job) :
    ScanOutcome → Traced Event Job
  | .reaped status => job.reap answers.now status
  | .expired => job.terminate .timeout nowMs answers.now
  | .truncated => pure job.enforceJobLogCap.2
  | .overCap => job.terminate .procLimit nowMs answers.now
  | .kept => pure job

theorem enforceJobLogCap_fst (job : Job) :
    job.enforceJobLogCap.1 = job.exceedsLogCap := by
  unfold enforceJobLogCap exceedsLogCap
  split <;> simp_all

theorem enforceJobLogCap_of_not_exceeds {job : Job}
    (h : job.exceedsLogCap = false) : job.enforceJobLogCap = (false, job) := by
  have hle : ¬job.output.length + job.error.length > job.maxLogBytes := by
    simpa [exceedsLogCap] using h
  simp [enforceJobLogCap, hle]

theorem enforceJobProcessCap_eq (nowMs : UInt64) (answers : ScanAnswers)
    (job : Job) :
    job.enforceJobProcessCap nowMs answers =
      if job.exceedsProcessCap answers then
        Prod.mk true <$> job.terminate .procLimit nowMs answers.now
      else
        pure (false, job) := by
  unfold enforceJobProcessCap exceedsProcessCap
  by_cases hmismatch : job.startTimeMismatch answers = true
  · simp [hmismatch]
  · by_cases hcount : answers.processCount < 0
    · simp [hmismatch, hcount, Int.not_le.mpr hcount]
    · by_cases hover : answers.processCount > job.maxChildProcesses
      · have hknown : 0 ≤ answers.processCount := Int.not_lt.mp hcount
        ext1 <;> simp [hmismatch, hcount, hover, hknown, terminate]
      · simp [hmismatch, hcount, hover]

theorem enforceLimits_eq {nowMs : UInt64} {answers : ScanAnswers} {job : Job}
    (h : job.collected? answers = none) :
    job.enforceLimits nowMs answers =
      job.conclude nowMs answers (job.scanOutcome nowMs answers) := by
  unfold enforceLimits enforceJobTimeout scanOutcome
  simp only [h]
  by_cases htime : job.timedOut nowMs = true
  · ext1 <;> simp [htime, conclude, terminate]
  · simp only [htime]
    by_cases hlog : job.exceedsLogCap = true
    · have hfst := job.enforceJobLogCap_fst
      simp [hlog] at hfst
      ext1 <;> simp [hlog, hfst, conclude]
    · simp only [Bool.not_eq_true] at hlog
      have hcap := enforceJobLogCap_of_not_exceeds hlog
      by_cases hover : job.exceedsProcessCap answers = true
      · ext1 <;> simp [hlog, hcap, hover, conclude, enforceJobProcessCap_eq]
      · ext1 <;> simp [hlog, hcap, hover, conclude, enforceJobProcessCap_eq]

theorem scan_eq (nowMs : UInt64) (answers : ScanAnswers) (job : Job) :
    job.scan nowMs answers =
      job.drainBoth answers >>= fun drained =>
        drained.wait answers >>= fun _ =>
          drained.conclude nowMs answers
            (drained.scanOutcome nowMs answers) := by
  unfold scan
  apply congrArg (fun next => job.drainBoth answers >>= next)
  funext drained
  have hwait : (drained.wait answers).value = drained.collected? answers := by
    unfold wait
    split <;> rfl
  have hend : (match (drained.wait answers).value with
      | some status => drained.reap answers.now status
      | none => drained.enforceLimits nowMs answers) =
      drained.conclude nowMs answers (drained.scanOutcome nowMs answers) := by
    rw [hwait]
    cases hcollected : drained.collected? answers with
    | some status => simp [scanOutcome, hcollected, conclude]
    | none => exact enforceLimits_eq hcollected
  ext1
  · simp only [Traced.value_bind]
    exact congrArg Traced.value hend
  · simp only [Traced.events_bind]
    exact congrArg (fun x => (drained.wait answers).events ++ x.events) hend

theorem value_scan (nowMs : UInt64) (answers : ScanAnswers) (job : Job) :
    (job.scan nowMs answers).value =
      ((job.drainBoth answers).value.conclude nowMs answers
        ((job.drainBoth answers).value.scanOutcome nowMs answers)).value := by
  rw [scan_eq]
  rfl

@[simp] theorem status_append (bytes : Bytes) (stream : Stream) (job : Job) :
    (job.append bytes stream).status = job.status := by
  cases stream <;> rfl

@[simp] theorem status_setFd (value : Int) (stream : Stream) (job : Job) :
    (job.setFd value stream).status = job.status := by
  cases stream <;> rfl

@[simp] theorem processGroup_append (bytes : Bytes) (stream : Stream)
    (job : Job) :
    (job.append bytes stream).processGroup = job.processGroup := by
  cases stream <;> rfl

@[simp] theorem processGroup_setFd (value : Int) (stream : Stream)
    (job : Job) :
    (job.setFd value stream).processGroup = job.processGroup := by
  cases stream <;> rfl

theorem drain_cases (stream : Stream) (answer : Option Bytes) (job : Job) :
    (job.drain stream answer).value = job ∨
      (∃ bytes, (job.drain stream answer).value = job.append bytes stream) ∨
      (job.drain stream answer).value = job.setFd (-1) stream := by
  unfold drain
  split
  · cases answer with
    | none => exact .inl rfl
    | some bytes =>
        by_cases h : bytes.length > 0
        · exact .inr (.inl ⟨bytes, by simp [h]⟩)
        · exact .inr (.inr (by simp [h]))
  · exact .inl rfl

@[simp] theorem status_drain (stream : Stream) (answer : Option Bytes)
    (job : Job) : (job.drain stream answer).value.status = job.status := by
  rcases drain_cases stream answer job with h | ⟨_, h⟩ | h <;> simp [h]

@[simp] theorem processGroup_drain (stream : Stream) (answer : Option Bytes)
    (job : Job) :
    (job.drain stream answer).value.processGroup = job.processGroup := by
  rcases drain_cases stream answer job with h | ⟨_, h⟩ | h <;> simp [h]

@[simp] theorem status_drainBoth (answers : ScanAnswers) (job : Job) :
    (job.drainBoth answers).value.status = job.status := by
  simp [drainBoth]

@[simp] theorem processGroup_drainBoth (answers : ScanAnswers) (job : Job) :
    (job.drainBoth answers).value.processGroup = job.processGroup := by
  simp [drainBoth]

@[simp] theorem status_closeRemaining (stream : Stream) (job : Job) :
    (job.closeRemaining stream).value.status = job.status := by
  unfold closeRemaining
  split <;> simp

theorem events_start (nowMs : UInt64) (answer : SpawnAnswer) (job : Job) :
    (job.start nowMs answer).events = [.spawnCalled job.id answer] := by
  cases answer <;> rfl

theorem status_start (nowMs : UInt64) (answer : SpawnAnswer) (job : Job) :
    (job.start nowMs answer).value.status =
      if answer.succeeded then .running else .failed := by
  cases answer <;> rfl

theorem status_enforceJobLogCap (job : Job) :
    job.enforceJobLogCap.2.status = job.status := by
  unfold enforceJobLogCap
  split <;> rfl

theorem status_conclude (nowMs : UInt64) (answers : ScanAnswers) (job : Job)
    (outcome : ScanOutcome) :
    (job.conclude nowMs answers outcome).value.status =
      outcome.status job.status := by
  cases outcome with
  | reaped status => simp [conclude, reap, finish, ScanOutcome.status]
  | expired => rfl
  | truncated => exact status_enforceJobLogCap job
  | overCap => rfl
  | kept => rfl

theorem status_scan (nowMs : UInt64) (answers : ScanAnswers) (job : Job) :
    (job.scan nowMs answers).value.status =
      ((job.drainBoth answers).value.scanOutcome nowMs answers).status
        job.status := by
  rw [scan_eq]
  simp [status_conclude]

def withdrawn (answers : CancelAnswers) (job : Job) : Job :=
  { job with
    status := .cancelled
    finishedAt := answers.now
    endedAtMs := answers.now.toMs }

def cancelSignals (answers : CancelAnswers) : List Signal :=
  .sigterm :: .probe :: if answers.groupAlive then [.sigkill] else []

theorem value_cancel (answers : CancelAnswers) (job : Job) :
    (job.cancel answers).value =
      if job.status = .running ∨ job.status = .queued then
        job.withdrawn answers
      else
        job := by
  unfold cancel
  by_cases hrunning : job.status = .running
  · cases answers.groupAlive <;> simp [hrunning, withdrawn]
  · by_cases hqueued : job.status = .queued <;>
      simp [hrunning, hqueued, withdrawn]

theorem events_cancel (answers : CancelAnswers) (job : Job) :
    (job.cancel answers).events =
      if job.status = .running ∧ 0 < job.processGroup then
        (cancelSignals answers).map (.killed job.id job.processGroup)
      else
        [] := by
  unfold cancel
  by_cases hrunning : job.status = .running
  · by_cases hgroup : 0 < job.processGroup <;>
      cases halive : answers.groupAlive <;>
        simp [hrunning, hgroup, halive, signalGroup, cancelSignals]
  · by_cases hqueued : job.status = .queued <;> simp [hrunning, hqueued]

theorem status_cancel (answers : CancelAnswers) (job : Job) :
    (job.cancel answers).value.status =
      if job.status = .running ∨ job.status = .queued then .cancelled
      else job.status := by
  rw [value_cancel]
  split <;> rfl

end Job

end HeidiKernel
