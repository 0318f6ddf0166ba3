import HeidiKernel.Job.Invariant

namespace HeidiKernel

open HeidiKernel.Transition
open HeidiKernel.Data

/-! The queue as a window onto the history: what has been submitted is what has
been handed to the spawner, followed by what is still waiting. -/

namespace Event

def spawned? : Event → Option String
  | .spawnCalled job _ => some job
  | _ => none

def submitted? : Event → Option String
  | .submitted job => some job
  | _ => none

end Event

def Op.isSubmit : Op → Bool
  | .submit _ _ _ _ => true
  | .cancel _ _ | .tick _ => false

def spawnedJobs (events : List Event) : List String :=
  events.filterMap Event.spawned?

def submittedJobs (events : List Event) : List String :=
  events.filterMap Event.submitted?

theorem mem_spawnedJobs {id : String} {events : List Event} :
    id ∈ spawnedJobs events ↔ ∃ answer, .spawnCalled id answer ∈ events := by
  simp only [spawnedJobs, List.mem_filterMap]
  constructor
  · intro h
    obtain ⟨e, he, hspawned⟩ := h
    cases e <;> simp only [Event.spawned?, reduceCtorEq, Option.some.injEq]
      at hspawned
    subst hspawned
    exact ⟨_, he⟩
  · intro h
    obtain ⟨answer, he⟩ := h
    exact ⟨_, he, rfl⟩

namespace Job

/-! Of the actions on a job only a start calls the spawner, and none submits. -/

section

variable {γ : Type} (project : Event → Option γ)

theorem filterMap_start (nowMs : UInt64) (answer : SpawnAnswer) (job : Job) :
    (job.start nowMs answer).events.filterMap project =
      (project (.spawnCalled job.id answer)).toList := by
  rw [events_start]
  cases h : project (.spawnCalled job.id answer) <;> simp [h]

/-- The projection ignores everything a running job does. -/
structure Ignores : Prop where
  read : ∀ job stream answer, project (.readCalled job stream answer) = none
  close : ∀ job stream fd, project (.closed job stream fd) = none
  wait : ∀ job pid answer, project (.waitCalled job pid answer) = none
  kill : ∀ job group signal, project (.killed job group signal) = none

variable {project} (h : Ignores project)

include h

theorem Ignores.drain (stream : Stream) (answer : Option Bytes) (job : Job) :
    (job.drain stream answer).events.filterMap project = [] := by
  unfold Job.drain
  split
  · cases answer with
    | none => simp [h.read]
    | some bytes =>
        by_cases hbytes : bytes.length > 0 <;> simp [hbytes, h.read, h.close]
  · simp

theorem Ignores.closeRemaining (stream : Stream) (job : Job) :
    (job.closeRemaining stream).events.filterMap project = [] := by
  unfold Job.closeRemaining
  split <;> simp [h.close]

theorem Ignores.signalGroup (signal : Signal) (job : Job) :
    (job.signalGroup signal).events.filterMap project = [] := by
  unfold Job.signalGroup
  split <;> simp [h.kill]

theorem Ignores.poll (answers : ScanAnswers) (job : Job) :
    (job.wait answers).events.filterMap project = [] := by
  unfold Job.wait
  split <;> simp [h.wait]

theorem Ignores.conclude (nowMs : UInt64) (answers : ScanAnswers) (job : Job)
    (outcome : ScanOutcome) :
    (job.conclude nowMs answers outcome).events.filterMap project = [] := by
  cases outcome with
  | reaped status =>
      simp only [Job.conclude, reap, Traced.events_bind,
        List.filterMap_append, h.closeRemaining, List.append_nil]
  | expired | overCap =>
      simp only [Job.conclude, terminate, Traced.events_bind,
        Traced.events_pure, List.append_nil, h.signalGroup]
  | truncated | kept => rfl

theorem Ignores.scan (nowMs : UInt64) (answers : ScanAnswers) (job : Job) :
    (job.scan nowMs answers).events.filterMap project = [] := by
  simp only [scan_eq, drainBoth, Traced.events_bind, List.filterMap_append,
    h.drain, h.poll, h.conclude, List.append_nil]

theorem Ignores.cancel (answers : CancelAnswers) (job : Job) :
    (job.cancel answers).events.filterMap project = [] := by
  rw [events_cancel]
  split
  · rw [List.filterMap_map, List.filterMap_eq_nil_iff]
    exact fun signal _ => h.kill _ _ signal
  · rfl

end

theorem ignores_spawned? : Ignores Event.spawned? := by
  constructor <;> intros <;> rfl

theorem ignores_submitted? : Ignores Event.submitted? := by
  constructor <;> intros <;> rfl

end Job

namespace JobRunner

namespace WellFormed

variable {r : JobRunner} (h : r.WellFormed)

include h

theorem filterMap_tick {γ : Type} {project : Event → Option γ}
    (hignores : Job.Ignores project) (out : String → List γ) (t : Tick)
    (hstart : ∀ id, (project (.spawnCalled id (t.spawn id))).toList = out id) :
    (r.tick t).events.filterMap project = (r.startedJobs t).flatMap out := by
  have hstarts := Keyed.filterMap_events_modifyAll (startJob_id t) project out
    (fun job => (Job.filterMap_start project _ _ job).trans (hstart job.id))
    h.ids_nodup (fun id hid => h.queue_known (startedJobs_subset t r hid))
  have hscans := Keyed.filterMap_events_modifyAll
    (scanJob_id t.nowMs t.scan) project (fun _ => [])
    (fun job => hignores.scan t.nowMs _ job)
    (h.ids_startPhase_nodup t) (scannedJobs_known t r)
  rw [events_tick, List.filterMap_append, hstarts, hscans]
  simp

/-- A tick hands exactly the jobs it takes off the queue to the spawner. -/
theorem spawnedJobs_tick (t : Tick) :
    spawnedJobs (r.tick t).events = r.startedJobs t := by
  rw [spawnedJobs, h.filterMap_tick Job.ignores_spawned? (fun id => [id]) t
    (fun _ => rfl), List.flatMap_singleton']

theorem submittedJobs_tick (t : Tick) :
    submittedJobs (r.tick t).events = [] := by
  rw [submittedJobs, h.filterMap_tick Job.ignores_submitted? (fun _ => []) t
    (fun _ => rfl)]
  simp

end WellFormed

theorem filterMap_cancelJob {γ : Type} {project : Event → Option γ}
    (hignores : Job.Ignores project) (id : String) (answers : CancelAnswers)
    (r : JobRunner) :
    (r.cancelJob id answers).events.filterMap project = [] := by
  unfold cancelJob Keyed.modify
  cases Keyed.lookup? Job.id id r.jobs with
  | none => rfl
  | some job => simp [hignores.cancel]

theorem jobQueue_cancelJob (id : String) (answers : CancelAnswers)
    (r : JobRunner) :
    (r.cancelJob id answers).value.2.jobQueue = r.jobQueue := by
  unfold cancelJob
  cases Keyed.lookup? Job.id id r.jobs <;> rfl

theorem jobCounter_cancelJob (id : String) (answers : CancelAnswers)
    (r : JobRunner) :
    (r.cancelJob id answers).value.2.jobCounter = r.jobCounter := by
  unfold cancelJob
  cases Keyed.lookup? Job.id id r.jobs <;> rfl

theorem jobCounter_tick (t : Tick) (r : JobRunner) :
    (r.tick t).value.jobCounter = r.jobCounter :=
  (checkJobLimits_frame t.nowMs t.maxLimitScansPerTick t.scan
    (r.startPhase t).value).2.2.1.trans (jobCounter_startPhase t r)

def drawnIds (k : Nat) : List String :=
  (List.range k).map fun i => jobId (i + 1)

theorem drawnIds_nodup (k : Nat) : (drawnIds k).Nodup :=
  List.Nodup.map (fun _ _ heq => Nat.succ.inj (jobId_injective heq))
    List.nodup_range

/-- The queue accounts for everything submitted and not yet spawned. -/
structure Accounts (r : JobRunner) (history : List Event) : Prop where
  wellFormed : r.WellFormed
  drawn : submittedJobs history = drawnIds r.jobCounter
  spawned : spawnedJobs history ++ r.jobQueue = submittedJobs history

theorem Accounts.apply {r : JobRunner} {history : List Event}
    (h : Accounts r history) (op : Op) :
    Accounts (r.apply op).value (history ++ (r.apply op).events) := by
  have hwf := h.wellFormed
  refine ⟨hwf.apply_wellFormed op, ?_, ?_⟩ <;>
    simp only [spawnedJobs, submittedJobs, List.filterMap_append]
  · have hdrawn := h.drawn
    rw [submittedJobs] at hdrawn
    rw [hdrawn]
    cases op with
    | submit command limits now layout =>
        simp [JobRunner.apply, submitJob, drawnIds, List.range_succ,
          Event.submitted?, newJob]
    | cancel id answers =>
        simp [JobRunner.apply, jobCounter_cancelJob,
          filterMap_cancelJob Job.ignores_submitted?]
    | tick t =>
        have hnone := hwf.submittedJobs_tick t
        rw [submittedJobs] at hnone
        simp [JobRunner.apply, hnone, jobCounter_tick]
  · have hspawned := h.spawned
    rw [spawnedJobs, submittedJobs] at hspawned
    cases op with
    | submit command limits now layout =>
        simp [JobRunner.apply, submitJob, ← hspawned, Event.submitted?,
          Event.spawned?]
    | cancel id answers =>
        simp [JobRunner.apply, jobQueue_cancelJob, hspawned,
          filterMap_cancelJob Job.ignores_submitted?,
          filterMap_cancelJob Job.ignores_spawned?]
    | tick t =>
        have hnone := hwf.submittedJobs_tick t
        have hstarted := hwf.spawnedJobs_tick t
        rw [submittedJobs] at hnone
        rw [spawnedJobs] at hstarted
        simp only [JobRunner.apply, hnone, hstarted, List.append_nil,
          List.append_assoc]
        rw [WellFormed.jobQueue_tick, startedJobs_append_jobQueue, hspawned]

theorem runJobs_accounts (maxConcurrentJobs : Nat) (ops : List Op) :
    Accounts (runJobs maxConcurrentJobs ops).value
      (runJobs maxConcurrentJobs ops).events :=
  Machine.history_run (I := Accounts) (fun _ _ op h => h.apply op)
    ⟨create_wellFormed maxConcurrentJobs, rfl, rfl⟩ ops

/-! The calls of `submit_job`. -/

/-- The id the caller gets, if the call is a submission. -/
def returned? (r : JobRunner) : Op → Option String
  | .submit command limits now layout =>
      some (r.submitJob command limits now layout).value.1
  | .cancel _ _ | .tick _ => none

def returnedIds (r : JobRunner) : List Op → List String
  | [] => []
  | op :: ops => (r.returned? op).toList ++ returnedIds (r.apply op).value ops

theorem WellFormed.submittedJobs_apply {r : JobRunner} (h : r.WellFormed)
    (op : Op) :
    submittedJobs (r.apply op).events = (r.returned? op).toList := by
  cases op with
  | submit command limits now layout =>
      simp [JobRunner.apply, submitJob, submittedJobs, Event.submitted?,
        returned?, newJob]
  | cancel id answers =>
      simp [JobRunner.apply, submittedJobs, returned?,
        filterMap_cancelJob Job.ignores_submitted?]
  | tick t => exact h.submittedJobs_tick t

/-- Each call of `submit_job` logs the one job it returns. -/
theorem WellFormed.submittedJobs_run {r : JobRunner} (h : r.WellFormed)
    (ops : List Op) :
    submittedJobs (runnerMachine.run r ops).events = r.returnedIds ops := by
  induction ops generalizing r with
  | nil => rfl
  | cons op ops ih =>
      have hstep := h.submittedJobs_apply op
      have hrest := ih (h.apply_wellFormed op)
      rw [submittedJobs] at hstep hrest
      rw [submittedJobs, Machine.events_run_cons, List.filterMap_append,
        returnedIds, ← hstep, ← hrest]
      rfl

theorem length_returnedIds (r : JobRunner) (ops : List Op) :
    (r.returnedIds ops).length = ops.countP Op.isSubmit := by
  induction ops generalizing r with
  | nil => rfl
  | cons op ops ih =>
      rw [returnedIds, List.length_append, ih, List.countP_cons]
      cases op <;> simp [returned?, Op.isSubmit, Nat.add_comm]

/-- No job is lost, duplicated or reordered on its way from its submission to
the spawner. -/
theorem spawned_append_jobQueue (maxConcurrentJobs : Nat) (ops : List Op) :
    let run := runJobs maxConcurrentJobs ops
    spawnedJobs run.events ++ run.value.jobQueue = submittedJobs run.events ∧
      submittedJobs run.events = (create maxConcurrentJobs).returnedIds ops ∧
      run.value.jobCounter = ops.countP Op.isSubmit ∧
      submittedJobs run.events = drawnIds run.value.jobCounter ∧
      (spawnedJobs run.events).Nodup ∧
      (spawnedJobs run.events).IsPrefix (submittedJobs run.events) := by
  intro run
  have haccounts := runJobs_accounts maxConcurrentJobs ops
  have hinitial : (spawnedJobs run.events).IsPrefix
      (submittedJobs run.events) := by
    rw [← haccounts.spawned]
    exact List.prefix_append _ _
  have hnodup : (submittedJobs run.events).Nodup := by
    rw [haccounts.drawn]
    exact drawnIds_nodup _
  have hreturned : submittedJobs run.events =
      (create maxConcurrentJobs).returnedIds ops :=
    (create_wellFormed maxConcurrentJobs).submittedJobs_run ops
  have hcounter : run.value.jobCounter = ops.countP Op.isSubmit := by
    rw [← length_returnedIds (create maxConcurrentJobs) ops, ← hreturned,
      haccounts.drawn, drawnIds, List.length_map, List.length_range]
  exact ⟨haccounts.spawned, hreturned, hcounter, haccounts.drawn,
    hnodup.sublist hinitial.sublist, hinitial⟩

end JobRunner

end HeidiKernel
