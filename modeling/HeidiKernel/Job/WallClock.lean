import HeidiKernel.Job.Fairness
import HeidiKernel.Job.Lifecycle
import HeidiKernel.Job.Timestamp

namespace HeidiKernel

open HeidiKernel.Transition
open HeidiKernel.Data

/-! Two runs of the runner that differ in nothing but the system clock. A run
is compared with the one whose clock always shows the time of the tick, up to
the two time points that only record a clock reading. -/

/-- The reading whose milliseconds are `ms`. -/
def SystemTime.ofMs (ms : UInt64) : SystemTime := (ms.toNat : Int) * 1000000

theorem SystemTime.toMs_ofMs (ms : UInt64) :
    (SystemTime.ofMs ms).toMs = ms := by
  have hlt := ms.toNat_lt
  have hmod : ((ms.toNat : Int) % 2 ^ 64).toNat = ms.toNat := by omega
  rw [toMs, ofMs, Int.mul_tdiv_cancel _ (by decide), UInt64.ofInt, hmod,
    UInt64.ofNat_toNat]

def SpawnAnswer.readAt (now : SystemTime) : SpawnAnswer → SpawnAnswer
  | .spawned processGroup leaderStartTime stdoutFd stderrFd =>
      .spawned processGroup leaderStartTime stdoutFd stderrFd
  | .failed error _ => .failed error now

def ScanAnswers.readAt (now : SystemTime) (answers : ScanAnswers) :
    ScanAnswers :=
  { answers with now }

/-- The same tick with a clock that shows its time. -/
def Tick.synchronized (t : Tick) : Tick :=
  { t with
    spawn := fun id => (t.spawn id).readAt (.ofMs t.nowMs)
    scan := fun id => (t.scan id).readAt (.ofMs t.nowMs) }

/-- The same call, made under another clock. Where the table puts a new job is
compared in the states. -/
inductive SameButClock : Op → Op → Prop
  | submit (command : String) (limits : JobLimits) (now now' : SystemTime)
      (layout layout' : Layout) :
      SameButClock (.submit command limits now layout)
        (.submit command limits now' layout')
  | tick {t t' : Tick} (h : t.synchronized = t'.synchronized) :
      SameButClock (.tick t) (.tick t')

namespace Job

/-- A job without the time points `created_at` and `finished_at`. -/
def undated (job : Job) : Job :=
  { job with createdAt := 0, finishedAt := 0 }

theorem undated_start (nowMs : UInt64) (answer : SpawnAnswer)
    (now : SystemTime) (job : Job) :
    (job.start nowMs answer).value.undated =
      (job.undated.start nowMs (answer.readAt now)).value.undated := by
  cases answer <;> rfl

theorem undated_drain (stream : Stream) (answer : Option Bytes) (job : Job) :
    (job.drain stream answer).value.undated =
      (job.undated.drain stream answer).value := by
  have hfd : job.undated.fd stream = job.fd stream := by
    cases stream <;> rfl
  unfold drain
  rw [hfd]
  split
  · cases answer with
    | none => rfl
    | some bytes => cases stream <;> cases bytes <;> rfl
  · rfl

theorem undated_drainBoth (answers : ScanAnswers) (now : SystemTime)
    (job : Job) :
    (job.drainBoth answers).value.undated =
      (job.undated.drainBoth (answers.readAt now)).value := by
  simp only [drainBoth, Traced.value_bind, undated_drain]
  rfl

theorem undated_closeRemaining (stream : Stream) (job : Job) :
    (job.closeRemaining stream).value.undated =
      (job.undated.closeRemaining stream).value := by
  have hfd : job.undated.fd stream = job.fd stream := by
    cases stream <;> rfl
  unfold closeRemaining
  rw [hfd]
  split
  · cases stream <;> rfl
  · rfl

theorem undated_enforceJobLogCap (job : Job) :
    job.enforceJobLogCap.2.undated = job.undated.enforceJobLogCap.2 := by
  by_cases hlog : job.output.length + job.error.length > job.maxLogBytes <;>
    simp [enforceJobLogCap, undated, hlog]

/-- An ending is the same under both clocks if a reap reads the same
milliseconds. -/
theorem undated_conclude {nowMs : UInt64} {answers : ScanAnswers}
    {now : SystemTime} {outcome : ScanOutcome} (job : Job)
    (hclock : ∀ status, outcome = .reaped status →
      answers.now.toMs = now.toMs) :
    (job.conclude nowMs answers outcome).value.undated =
      (job.undated.conclude nowMs (answers.readAt now) outcome).value.undated := by
  cases outcome with
  | reaped status =>
      have hfinish : (job.finish answers.now status).undated =
          (job.undated.finish now status).undated := by
        simp [finish, undated, hclock status rfl]
      simp only [conclude, reap, Traced.value_bind, undated_closeRemaining,
        hfinish]
      rfl
  | expired | overCap => rfl
  | truncated =>
      simp only [conclude, Traced.value_pure, undated_enforceJobLogCap]
      rfl
  | kept => rfl

theorem undated_scan {nowMs : UInt64} {answers : ScanAnswers} (job : Job)
    (hclock : (job.collected? answers).isSome → answers.now.toMs = nowMs) :
    (job.scan nowMs answers).value.undated =
      (job.undated.scan nowMs
        (answers.readAt (.ofMs nowMs))).value.undated := by
  have hdrain := job.undated_drainBoth answers (.ofMs nowMs)
  have hcollected := collected?_drainBoth answers job
  rw [value_scan, value_scan, ← hdrain]
  generalize (job.drainBoth answers).value = drained at hcollected ⊢
  apply undated_conclude
  intro status hend
  rw [SystemTime.toMs_ofMs]
  apply hclock
  rw [← hcollected]
  unfold scanOutcome at hend
  split at hend
  · rename_i hstatus
    simp [hstatus]
  · split_ifs at hend

end Job

namespace JobRunner

/-- A runner without the time points of its jobs and without what it only
reports. -/
def undated (r : JobRunner) : JobRunner :=
  { r with
    jobs := r.jobs.map Job.undated
    lastTickDiagnostics := {}
    jobsStartedThisTick := 0
    jobsScannedThisTick := 0 }

theorem ids_undated (r : JobRunner) :
    r.undated.jobs.map Job.id = r.jobs.map Job.id := by
  simp only [undated, List.map_map]
  rfl

theorem runningJobs_undated (r : JobRunner) :
    r.undated.runningJobs = r.runningJobs := by
  simp only [runningJobs, undated, List.filter_map, List.map_map]
  rfl

theorem undated_wellFormed {r : JobRunner} (h : r.WellFormed) :
    r.undated.WellFormed where
  ids_nodup := by
    rw [ids_undated]
    exact h.ids_nodup
  ids_drawn := by
    intro job hjob
    obtain ⟨source, hsource, rfl⟩ := List.mem_map.mp hjob
    exact h.ids_drawn source hsource
  queue_nodup := h.queue_nodup
  queue_known := by
    rw [ids_undated]
    exact h.queue_known
  waiting := by
    intro job hjob
    obtain ⟨source, hsource, rfl⟩ := List.mem_map.mp hjob
    exact h.waiting source hsource
  queued_waiting := by
    intro job hjob
    obtain ⟨source, hsource, rfl⟩ := List.mem_map.mp hjob
    exact h.queued_waiting source hsource
  settled := by
    intro job hjob
    obtain ⟨source, hsource, rfl⟩ := List.mem_map.mp hjob
    exact h.settled source hsource

/-- What is left of a runner without its time points and reports. -/
theorem undated_eq {r r' : JobRunner}
    (hmax : r.maxConcurrent = r'.maxConcurrent)
    (hqueue : r.jobQueue = r'.jobQueue)
    (hjobs : r.jobs.map Job.undated = r'.jobs.map Job.undated)
    (hcounter : r.jobCounter = r'.jobCounter)
    (hcursor : r.scanCursor = r'.scanCursor)
    (hgovernor : r.governor = r'.governor) : r.undated = r'.undated := by
  simp only [undated, hmax, hqueue, hjobs, hcounter, hcursor, hgovernor]

theorem succeeds_synchronized (t : Tick) :
    succeeds t.synchronized = succeeds t := by
  funext id
  simp only [succeeds, Tick.synchronized]
  cases t.spawn id <;> rfl

theorem admits_undated (t : Tick) (r : JobRunner) :
    r.undated.Admits t.synchronized ↔ r.Admits t := by
  have hrunning : r.undated.runningCount = r.runningCount := by
    simp only [runningCount, undated, List.countP_map]
    rfl
  have hqueued : r.undated.queuedCount = r.queuedCount := by
    simp only [queuedCount, undated, List.countP_map]
    rfl
  unfold Admits admission
  rw [hrunning, hqueued]
  rfl

theorem startedJobs_undated (t : Tick) (r : JobRunner) :
    r.undated.startedJobs t.synchronized = r.startedJobs t := by
  have hbudget : r.undated.startBudget t.synchronized = r.startBudget t := by
    simp only [startBudget, runningCount, undated, List.countP_map]
    rfl
  simp only [startedJobs, admits_undated, succeeds_synchronized, hbudget]
  rfl

theorem undated_startPhase {r : JobRunner} (h : r.WellFormed) (t : Tick) :
    (r.startPhase t).value.undated =
      (r.undated.startPhase t.synchronized).value.undated := by
  have hstarted := startedJobs_undated t r
  apply undated_eq
  case hmax => rw [maxConcurrent_startPhase, maxConcurrent_startPhase, undated]
  case hqueue =>
    have hold := startedJobs_append_jobQueue t r
    have hnew := startedJobs_append_jobQueue t.synchronized r.undated
    rw [hstarted] at hnew
    exact List.append_cancel_left (hold.trans hnew.symm)
  case hjobs =>
    rw [h.jobs_startPhase_eq_map t,
      (undated_wellFormed h).jobs_startPhase_eq_map t.synchronized, hstarted]
    simp only [undated, List.map_map]
    apply List.map_congr_left
    intro job _
    have hid : job.undated.id = job.id := rfl
    simp only [Function.comp_apply, hid]
    split
    · exact job.undated_start t.nowMs (t.spawn job.id) (.ofMs t.nowMs)
    · rfl
  case hcounter => rw [jobCounter_startPhase, jobCounter_startPhase, undated]
  case hcursor => rw [scanCursor_startPhase, scanCursor_startPhase, undated]
  case hgovernor => rw [governor_startPhase, governor_startPhase, undated]

theorem undated_checkJobLimits {r : JobRunner}
    (hnodup : (r.jobs.map Job.id).Nodup) (nowMs : UInt64) (k : Nat)
    (scan : String → ScanAnswers)
    (hclock : ∀ job ∈ r.jobs, job.id ∈ r.selectedJobs k →
      (job.collected? (scan job.id)).isSome →
        (scan job.id).now.toMs = nowMs) :
    (r.checkJobLimits nowMs k scan).value.undated =
      (r.undated.checkJobLimits nowMs k
        fun id => (scan id).readAt (.ofMs nowMs)).value.undated := by
  have hrunning := r.runningJobs_undated
  have hselected : r.undated.selectedJobs k = r.selectedJobs k := by
    rw [selectedJobs_eq_window, selectedJobs_eq_window, hrunning]
    rfl
  have hframe := checkJobLimits_frame nowMs k scan r
  have hframe' := checkJobLimits_frame nowMs k
    (fun id => (scan id).readAt (.ofMs nowMs)) r.undated
  apply undated_eq
  case hmax => exact hframe.1.trans hframe'.1.symm
  case hqueue => exact hframe.2.2.2.trans hframe'.2.2.2.symm
  case hjobs =>
    have hnodup' : (r.undated.jobs.map Job.id).Nodup := by
      rwa [ids_undated]
    rw [jobs_checkJobLimits, jobs_checkJobLimits, hselected,
      Keyed.value_modifyAll (scanJob_id _ _) (selectedJobs_nodup k r hnodup)
        hnodup,
      Keyed.value_modifyAll (scanJob_id _ _) (selectedJobs_nodup k r hnodup)
        hnodup']
    simp only [undated, List.map_map]
    apply List.map_congr_left
    intro job hjob
    have hid : job.undated.id = job.id := rfl
    simp only [Function.comp_apply, hid]
    split
    · rename_i hselect
      exact job.undated_scan (hclock job hjob hselect)
    · rfl
  case hcounter => exact hframe.2.2.1.trans hframe'.2.2.1.symm
  case hcursor =>
    rw [scanCursor_checkJobLimits, scanCursor_checkJobLimits, hrunning]
    rfl
  case hgovernor => exact hframe.2.1.trans hframe'.2.1.symm

theorem readAt_synchronized (t : Tick) :
    (fun id => (t.synchronized.scan id).readAt (.ofMs t.nowMs)) =
      t.synchronized.scan := rfl

/-- A tick whose clock agrees is the synchronized tick. -/
theorem undated_tick {r : JobRunner} (h : r.WellFormed) {t : Tick}
    (hclock : r.ClockAgrees t) :
    (r.tick t).value.undated =
      (r.undated.tick t.synchronized).value.undated := by
  have hscan := undated_checkJobLimits (h.ids_startPhase_nodup t) t.nowMs
    t.maxLimitScansPerTick t.scan hclock.reaps
  have hscan' := undated_checkJobLimits
    ((undated_wellFormed h).ids_startPhase_nodup t.synchronized) t.nowMs
    t.maxLimitScansPerTick t.synchronized.scan
    (fun _ _ _ _ => SystemTime.toMs_ofMs t.nowMs)
  rw [readAt_synchronized, ← undated_startPhase h t] at hscan'
  rw [value_tick, value_tick, hscan]
  exact hscan'.symm

/-- Submissions of one command agree if the tables iterate in one order. -/
theorem undated_submitJob {r r' : JobRunner} (h : r.WellFormed)
    (h' : r'.WellFormed) (hsame : r.undated = r'.undated) (command : String)
    (limits : JobLimits) (now now' : SystemTime) (layout layout' : Layout)
    (horder :
      (r.submitJob command limits now layout).value.2.jobs.map Job.id =
        (r'.submitJob command limits now' layout').value.2.jobs.map Job.id) :
    (r.submitJob command limits now layout).value.2.undated =
      (r'.submitJob command limits now' layout').value.2.undated := by
  simp only [undated, JobRunner.mk.injEq] at hsame
  obtain ⟨hmax, hqueue, hjobs, hcounter, -, -, -, hcursor, hgovernor⟩ := hsame
  have hwf := h.submitJob_wellFormed command limits now layout
  have hperm := (h.jobs_submitJob command limits now layout).map Job.undated
  have hperm' :=
    (h'.jobs_submitJob command limits now' layout').map Job.undated
  rw [List.map_append, hjobs, hcounter] at hperm
  rw [List.map_append] at hperm'
  apply undated_eq
  case hmax => exact hmax
  case hqueue =>
    simp only [submitJob, newJob, Traced.value_bind, Traced.value_pure,
      hqueue, hcounter]
  case hjobs =>
    have hids : Job.id ∘ Job.undated = Job.id := rfl
    apply Keyed.eq_of_perm (hperm.trans hperm'.symm)
    · rwa [List.map_map, List.map_map, hids]
    · rw [List.map_map, hids]
      exact hwf.ids_nodup
  case hcounter => exact congrArg (· + 1) hcounter
  case hcursor => exact hcursor
  case hgovernor => exact hgovernor

end JobRunner

/-- One call as it is made in the first and in the second run. -/
structure TwinCall where
  first : Op
  second : Op
  same : SameButClock first second

def firstRun (maxConcurrentJobs : Nat) (calls : List TwinCall) : JobRunner :=
  (runJobs maxConcurrentJobs (calls.map TwinCall.first)).value

def secondRun (maxConcurrentJobs : Nat) (calls : List TwinCall) : JobRunner :=
  (runJobs maxConcurrentJobs (calls.map TwinCall.second)).value

/-- The tables of the two runs iterate in the same order after each call. -/
def SameOrders (maxConcurrentJobs : Nat) (calls : List TwinCall) : Prop :=
  ∀ before, before <+: calls →
    (firstRun maxConcurrentJobs before).jobs.map Job.id =
      (secondRun maxConcurrentJobs before).jobs.map Job.id

structure JobReport where
  id : String
  status : JobStatus
  exitCode : Int
  startedAtMs : UInt64
  endedAtMs : UInt64
  deriving DecidableEq, Repr

def Job.report (job : Job) : JobReport :=
  ⟨job.id, job.status, job.exitCode, job.startedAtMs, job.endedAtMs⟩

namespace JobRunner

def StampsEnds (r : JobRunner) : Op → Prop
  | .tick t => r.EndsAtTickTime t
  | .submit .. | .cancel .. => True

def ReadsTickTime (r : JobRunner) : Op → Prop
  | .tick t => r.ClockAgrees t
  | .submit .. | .cancel .. => True

/-- The jobs of the two runs agree after each call, and all that end in a tick
end at its time. -/
structure ClockBlind (maxConcurrentJobs : Nat) (calls : List TwinCall) :
    Prop where
  agree : ∀ before, before <+: calls →
    (firstRun maxConcurrentJobs before).jobs.map Job.report =
      (secondRun maxConcurrentJobs before).jobs.map Job.report
  first_stamped : runnerMachine.Along StampsEnds (create maxConcurrentJobs)
    (calls.map TwinCall.first)
  second_stamped : runnerMachine.Along StampsEnds (create maxConcurrentJobs)
    (calls.map TwinCall.second)

def Uncancelled : Op → Prop
  | .submit .. | .tick _ => True
  | .cancel .. => False

theorem create_untouched (maxConcurrentJobs : Nat) :
    (create maxConcurrentJobs).Untouched := by
  refine ⟨create_wellFormed maxConcurrentJobs, ?_, ?_⟩ <;> simp [create]

theorem stampsEnds_along_iff (maxConcurrentJobs : Nat) {ops : List Op}
    (hops : ∀ op ∈ ops, Uncancelled op) :
    runnerMachine.Along StampsEnds (create maxConcurrentJobs) ops ↔
      runnerMachine.Along ReadsTickTime (create maxConcurrentJobs) ops := by
  refine Machine.along_congr (I := Untouched) (C := Uncancelled) ?_ ?_
    (create_untouched maxConcurrentJobs) hops
  · intro r op hI hop
    cases op with
    | submit command limits now layout =>
        exact hI.submitJob command limits now layout
    | cancel id answers => exact hop.elim
    | tick t => exact hI.tick t
  · intro r op hI hop
    cases op with
    | submit command limits now layout => exact Iff.rfl
    | cancel id answers => exact hop.elim
    | tick t => exact hI.endsAtTickTime_iff t

theorem uncancelled (call : TwinCall) :
    Uncancelled call.first ∧ Uncancelled call.second := by
  obtain ⟨first, second, hsame⟩ := call
  cases hsame <;> exact ⟨trivial, trivial⟩

/-- One call in two runs that agree so far. -/
theorem undated_apply {r r' : JobRunner} (h : r.WellFormed)
    (h' : r'.WellFormed) (hsame : r.undated = r'.undated) {op op' : Op}
    (hcall : SameButClock op op') (hclock : r.ReadsTickTime op)
    (hclock' : r'.ReadsTickTime op')
    (horder : (r.apply op).value.jobs.map Job.id =
      (r'.apply op').value.jobs.map Job.id) :
    (r.apply op).value.undated = (r'.apply op').value.undated := by
  cases hcall with
  | submit command limits now now' layout layout' =>
      exact undated_submitJob h h' hsame command limits now now' layout
        layout' horder
  | tick hticks =>
      exact (undated_tick h hclock).trans
        ((congrArg₂ (fun r t => (tick t r).value.undated) hsame hticks).trans
          (undated_tick h' hclock').symm)

theorem report_undated (r : JobRunner) :
    r.undated.jobs.map Job.report = r.jobs.map Job.report := by
  simp only [undated, List.map_map]
  rfl

theorem undated_run {maxConcurrentJobs : Nat} {calls : List TwinCall}
    (horder : SameOrders maxConcurrentJobs calls)
    (hfirst : runnerMachine.Along ReadsTickTime (create maxConcurrentJobs)
      (calls.map TwinCall.first))
    (hsecond : runnerMachine.Along ReadsTickTime (create maxConcurrentJobs)
      (calls.map TwinCall.second)) :
    (firstRun maxConcurrentJobs calls).undated =
      (secondRun maxConcurrentJobs calls).undated := by
  induction calls using List.reverseRecOn with
  | nil => rfl
  | append_singleton calls call ih =>
      rw [List.map_append, List.map_singleton, Machine.along_concat]
        at hfirst hsecond
      have hlast := horder (calls ++ [call]) List.prefix_rfl
      simp only [firstRun, secondRun, runJobs, List.map_append,
        List.map_singleton, Machine.value_run_concat] at hlast ⊢
      exact undated_apply (runJobs_wellFormed _ _) (runJobs_wellFormed _ _)
        (ih (fun before hbefore => horder before
          (hbefore.trans (List.prefix_append calls [call]))) hfirst.1 hsecond.1)
        call.same hfirst.2 hsecond.2 hlast

/-- Two runs under different clocks agree, and stamp the ends of their jobs
with the times of their ticks, exactly if no tick collects a leader while the
clock shows another time than its own, and no spawn fails after time zero. -/
theorem clockBlind_iff {maxConcurrentJobs : Nat} {calls : List TwinCall}
    (horder : SameOrders maxConcurrentJobs calls) :
    ClockBlind maxConcurrentJobs calls ↔
      runnerMachine.Along ReadsTickTime (create maxConcurrentJobs)
          (calls.map TwinCall.first) ∧
        runnerMachine.Along ReadsTickTime (create maxConcurrentJobs)
          (calls.map TwinCall.second) := by
  have hfirst := stampsEnds_along_iff maxConcurrentJobs
    (List.forall_mem_map.mpr fun (call : TwinCall) (_ : call ∈ calls) =>
      (uncancelled call).1)
  have hsecond := stampsEnds_along_iff maxConcurrentJobs
    (List.forall_mem_map.mpr fun (call : TwinCall) (_ : call ∈ calls) =>
      (uncancelled call).2)
  constructor
  · intro h
    exact ⟨hfirst.mp h.first_stamped, hsecond.mp h.second_stamped⟩
  · rintro ⟨hreads, hreads'⟩
    refine ⟨?_, hfirst.mpr hreads, hsecond.mpr hreads'⟩
    rintro before ⟨after, rfl⟩
    rw [List.map_append] at hreads hreads'
    have hsame := undated_run
      (fun earlier hearlier => horder earlier
        (hearlier.trans (List.prefix_append before after)))
      (Machine.along_append.mp hreads).1 (Machine.along_append.mp hreads').1
    rw [← report_undated, hsame, report_undated]

section Twins

/-! One submission and ticks at one second, under a clock that stands at its
epoch and one that has run for five milliseconds. -/

def twinSubmit : TwinCall where
  first := .submit "sleep 60" {} 0 plainLayout
  second := .submit "sleep 60" {} 5000000 plainLayout
  same := .submit _ _ _ _ _ _

def twinTick (answers : ScanAnswers) : TwinCall where
  first := .tick { plainTick with scan := fun _ => answers.readAt 0 }
  second := .tick { plainTick with scan := fun _ => answers.readAt 5000000 }
  same := .tick rfl

def runningTwins : List TwinCall := [twinSubmit, twinTick {}]

def reapedTwins : List TwinCall :=
  [twinSubmit, twinTick {}, twinTick { wait := .collected (.exited 0) }]

theorem runningTwins_clockBlind : ClockBlind 10 runningTwins := by
  have horders : ∀ before ∈ runningTwins.inits,
      (firstRun 10 before).jobs.map Job.id =
        (secondRun 10 before).jobs.map Job.id := by
    decide +kernel
  refine (clockBlind_iff fun before hbefore =>
    horders before ((List.mem_inits _ _).mpr hbefore)).mpr ⟨?_, ?_⟩
  · exact ⟨trivial, ⟨by decide +kernel, by decide +kernel⟩, trivial⟩
  · exact ⟨trivial, ⟨by decide +kernel, by decide +kernel⟩, trivial⟩

theorem reapedTwins_differ :
    ¬ ∀ maxConcurrentJobs calls, SameOrders maxConcurrentJobs calls →
      ClockBlind maxConcurrentJobs calls := by
  intro h
  have horders : ∀ before ∈ reapedTwins.inits,
      (firstRun 10 before).jobs.map Job.id =
        (secondRun 10 before).jobs.map Job.id := by
    decide +kernel
  have hagree := (h 10 reapedTwins fun before hbefore =>
    horders before ((List.mem_inits _ _).mpr hbefore)).agree reapedTwins
      List.prefix_rfl
  revert hagree
  decide +kernel

end Twins

end JobRunner

end HeidiKernel
