import HeidiKernel.Job.Outcome
import HeidiKernel.Job.Projection

namespace HeidiKernel

open HeidiKernel.Transition
open HeidiKernel.Data

/-! The invariant linking the job table with the queue, and what each call does
to every single job of a runner that satisfies it. -/

theorem jobId_injective {m n : Nat} (heq : jobId m = jobId n) : m = n := by
  have hrepr : m.repr = n.repr := (String.append_right_inj _).mp heq
  have hdigits : Nat.toDigits 10 m = Nat.toDigits 10 n := by
    simpa [Nat.repr_eq_ofList_toDigits] using congrArg String.toList hrepr
  have hvalue := congrArg (fun digits => Nat.ofDigitChars 10 digits 0) hdigits
  simpa using hvalue

namespace JobRunner

/-- A job is referenced by the queue from its submission until it is started;
until then it is QUEUED, or CANCELLED. -/
structure WellFormed (r : JobRunner) : Prop where
  ids_nodup : (r.jobs.map Job.id).Nodup
  ids_drawn : ∀ job ∈ r.jobs, ∃ k ≤ r.jobCounter, job.id = jobId k
  queue_nodup : r.jobQueue.Nodup
  queue_known : r.jobQueue ⊆ r.jobs.map Job.id
  waiting : ∀ job ∈ r.jobs, job.id ∈ r.jobQueue →
    job.status = .queued ∨ job.status = .cancelled
  queued_waiting : ∀ job ∈ r.jobs, job.status = .queued →
    job.id ∈ r.jobQueue
  settled : ∀ job ∈ r.jobs, job.status ≠ .starting

theorem create_wellFormed (maxConcurrentJobs : Nat) :
    (create maxConcurrentJobs).WellFormed := by
  constructor <;> simp [create]

theorem startJob_id (t : Tick) (job : Job) :
    (startJob t job).value.id = job.id :=
  Job.id_start _ _ job

theorem scanJob_id (nowMs : UInt64) (scan : String → ScanAnswers)
    (job : Job) : (scanJob nowMs scan job).value.id = job.id :=
  Job.id_scan _ _ job

section Selected

variable {r : JobRunner} (hids : (r.jobs.map Job.id).Nodup) {k : Nat}
  {job : Job} (hjob : job ∈ r.jobs) (hselected : job.id ∈ r.selectedJobs k)

include hids hjob hselected

theorem isActive_of_mem_selectedJobs : job.isActive = true := by
  obtain ⟨other, hother, hactive, hid⟩ :=
    (mem_runningJobs r).mp (selectedJobs_subset k r hselected)
  rwa [← Keyed.eq_of_key_eq hids hother hjob hid]

/-- The record of a selected job after a check is that of its scan. -/
theorem getJobStatus_checkJobLimits (nowMs : UInt64)
    (scan : String → ScanAnswers) :
    (r.checkJobLimits nowMs k scan).value.getJobStatus job.id =
      some (job.scan nowMs (scan job.id)).value := by
  have hselect := selectedJobs_nodup k r hids
  have hkeys := Keyed.keys_modifyAll (scanJob_id nowMs scan) hselect hids
  have hmem : (scanJob nowMs scan job).value ∈
      (r.checkJobLimits nowMs k scan).value.jobs := by
    rw [jobs_checkJobLimits,
      Keyed.value_modifyAll (scanJob_id nowMs scan) hselect hids]
    exact List.mem_map.mpr ⟨job, hjob, if_pos hselected⟩
  have hfind := Keyed.lookup?_of_mem
    (by rwa [jobs_checkJobLimits, hkeys]) hmem
  rwa [scanJob_id] at hfind

end Selected

theorem startedJobs_subset (t : Tick) (r : JobRunner) :
    r.startedJobs t ⊆ r.jobQueue := by
  unfold startedJobs
  split
  · exact List.take_subset _ _
  · simp

def tickActions (t : Tick) (r : JobRunner) (id : String) : List JobAction :=
  (if id ∈ r.startedJobs t then [.start t.nowMs (t.spawn id)] else []) ++
    (if id ∈ r.scannedJobs t then [.scan t.nowMs (t.scan id)] else [])

def actionsOn (r : JobRunner) (op : Op) (id : String) : List JobAction :=
  match op with
  | .submit .. => []
  | .cancel target answers => if target = id then [.cancel answers] else []
  | .tick t => r.tickActions t id

theorem selectedJobs_known (maxJobsToCheck : Nat) (r : JobRunner) :
    ∀ id ∈ r.selectedJobs maxJobsToCheck, id ∈ r.jobs.map Job.id := by
  intro id hid
  obtain ⟨job, hjob, _, rfl⟩ :=
    (mem_runningJobs _).mp (selectedJobs_subset _ _ hid)
  exact List.mem_map_of_mem hjob

theorem scannedJobs_known (t : Tick) (r : JobRunner) :
    ∀ id ∈ r.scannedJobs t, id ∈ (r.startPhase t).value.jobs.map Job.id :=
  selectedJobs_known _ _

theorem value_tick (t : Tick) (r : JobRunner) :
    (r.tick t).value = ((r.startPhase t).value.checkJobLimits t.nowMs
      t.maxLimitScansPerTick t.scan).value := by
  rw [tick, Traced.value_bind]

theorem value_tick_jobs (t : Tick) (r : JobRunner) :
    (r.tick t).value.jobs =
      (Keyed.modifyAll Job.id (scanJob t.nowMs t.scan) (r.scannedJobs t)
        (r.startPhase t).value.jobs).value :=
  jobs_checkJobLimits _ _ _ _

theorem events_tick (t : Tick) (r : JobRunner) :
    (r.tick t).events =
      (Keyed.modifyAll Job.id (startJob t) (r.startedJobs t) r.jobs).events ++
        (Keyed.modifyAll Job.id (scanJob t.nowMs t.scan) (r.scannedJobs t)
          (r.startPhase t).value.jobs).events := by
  rw [← events_startPhase]
  exact congrArg ((r.startPhase t).events ++ ·)
    (events_checkJobLimits _ _ _ _)

namespace WellFormed

variable {r : JobRunner} (h : r.WellFormed)

include h

theorem startedJobs_nodup (t : Tick) : (r.startedJobs t).Nodup := by
  unfold startedJobs
  split
  · exact h.queue_nodup.sublist (List.take_sublist _ _)
  · exact List.nodup_nil

theorem jobs_startPhase_eq_map (t : Tick) :
    (r.startPhase t).value.jobs = r.jobs.map fun job =>
      if job.id ∈ r.startedJobs t then (startJob t job).value else job := by
  rw [jobs_startPhase, Keyed.value_modifyAll (startJob_id t)
    (h.startedJobs_nodup t) h.ids_nodup]

theorem ids_startPhase (t : Tick) :
    (r.startPhase t).value.jobs.map Job.id = r.jobs.map Job.id := by
  rw [jobs_startPhase, Keyed.keys_modifyAll (startJob_id t)
    (h.startedJobs_nodup t) h.ids_nodup]

theorem ids_startPhase_nodup (t : Tick) :
    ((r.startPhase t).value.jobs.map Job.id).Nodup := by
  rw [h.ids_startPhase t]
  exact h.ids_nodup

theorem scannedJobs_nodup (t : Tick) : (r.scannedJobs t).Nodup :=
  selectedJobs_nodup _ _ (h.ids_startPhase_nodup t)

/-- A tick performs its actions on each job and touches nothing else. -/
theorem jobs_tick (t : Tick) :
    (r.tick t).value.jobs = r.jobs.map fun job =>
      (jobMachine.run job (r.tickActions t job.id)).value := by
  rw [value_tick_jobs, Keyed.value_modifyAll (scanJob_id t.nowMs t.scan)
    (h.scannedJobs_nodup t) (h.ids_startPhase_nodup t),
    h.jobs_startPhase_eq_map t, List.map_map]
  apply List.map_congr_left
  intro job _
  by_cases hstart : job.id ∈ r.startedJobs t <;>
    by_cases hscan : job.id ∈ r.scannedJobs t <;>
      simp [tickActions, hstart, hscan, jobMachine, Job.act, startJob,
        scanJob]

/-- The calls a tick makes on behalf of a job are those of its actions. -/
theorem events_tick_filter (t : Tick) {job : Job} (hjob : job ∈ r.jobs) :
    (r.tick t).events.filter (fun e => e.owner = job.id) =
      (jobMachine.run job (r.tickActions t job.id)).events := by
  have hknown : ∀ id ∈ r.startedJobs t, id ∈ r.jobs.map Job.id :=
    fun id hid => h.queue_known (startedJobs_subset t r hid)
  have hstarts := Keyed.events_modifyAll_filter (startJob_id t) Event.owner
    (fun job => (Job.stays_start t.nowMs (t.spawn job.id) job).owner)
    (h.startedJobs_nodup t) h.ids_nodup hknown hjob
  let started := if job.id ∈ r.startedJobs t then (startJob t job).value else job
  have hstarted : started ∈ (r.startPhase t).value.jobs := by
    rw [h.jobs_startPhase_eq_map t]
    exact List.mem_map_of_mem hjob
  have hid : started.id = job.id := by
    simp only [started]
    split
    · exact startJob_id t job
    · rfl
  have hscans := Keyed.events_modifyAll_filter (scanJob_id t.nowMs t.scan)
    Event.owner
    (fun job => (Job.stays_scan t.nowMs (t.scan job.id) job).owner)
    (h.scannedJobs_nodup t) (h.ids_startPhase_nodup t) (scannedJobs_known t r)
    hstarted
  rw [hid] at hscans
  rw [events_tick, List.filter_append, hstarts, hscans]
  by_cases hstart : job.id ∈ r.startedJobs t <;>
    by_cases hscan : job.id ∈ r.scannedJobs t <;>
      simp [started, tickActions, hstart, hscan, jobMachine, Job.act,
        startJob, scanJob]

theorem jobs_cancelJob (id : String) (answers : CancelAnswers) :
    (r.cancelJob id answers).value.2.jobs = r.jobs.map fun job =>
      (jobMachine.run job (r.actionsOn (.cancel id answers) job.id)).value := by
  unfold cancelJob
  cases hlookup : Keyed.lookup? Job.id id r.jobs with
  | none =>
      have habsent := Keyed.lookup?_eq_none.mp hlookup
      have hsame : r.jobs = r.jobs.map fun job => job := by simp
      rw [Traced.value_pure, hsame, List.map_map]
      apply List.map_congr_left
      intro job hjob
      have hne : id ≠ job.id := by
        rintro rfl
        exact habsent (List.mem_map_of_mem hjob)
      simp [actionsOn, hne]
  | some job =>
      simp only [Traced.value_bind, Traced.value_pure]
      rw [Keyed.value_modify h.ids_nodup]
      apply List.map_congr_left
      intro job _
      by_cases hid : job.id = id
      · subst hid
        simp [actionsOn, jobMachine, Job.act]
      · simp [actionsOn, hid, Ne.symm hid]

theorem events_cancelJob_filter (id : String) (answers : CancelAnswers)
    {job : Job} (hjob : job ∈ r.jobs) :
    (r.cancelJob id answers).events.filter (fun e => e.owner = job.id) =
      (jobMachine.run job
        (r.actionsOn (.cancel id answers) job.id)).events := by
  unfold cancelJob
  cases hlookup : Keyed.lookup? Job.id id r.jobs with
  | none =>
      have habsent := Keyed.lookup?_eq_none.mp hlookup
      have hne : id ≠ job.id := by
        rintro rfl
        exact habsent (List.mem_map_of_mem hjob)
      simp [actionsOn, hne]
  | some found =>
      obtain ⟨hfound, rfl⟩ := Keyed.lookup?_sound hlookup
      have howner := (Job.stays_cancel answers found).owner
      simp only [Traced.events_bind, Traced.events_pure, List.append_nil,
        Keyed.events_modify h.ids_nodup hfound]
      by_cases hid : found.id = job.id
      · have hsame := Keyed.eq_of_key_eq h.ids_nodup hfound hjob hid
        subst hsame
        rw [List.filter_eq_self.mpr (by simpa using howner)]
        simp [actionsOn, jobMachine, Job.act]
      · rw [List.filter_eq_nil_iff.mpr]
        · simp [actionsOn, hid]
        · intro e he
          simp [howner e he, hid]

theorem jobId_fresh : jobId (r.jobCounter + 1) ∉ r.jobs.map Job.id := by
  intro hmem
  obtain ⟨job, hjob, hid⟩ := List.mem_map.mp hmem
  obtain ⟨k, hk, hdrawn⟩ := h.ids_drawn job hjob
  have := jobId_injective (hdrawn.symm.trans hid)
  omega

/-- A submission adds exactly the new job, wherever the table iterates it. -/
theorem jobs_submitJob (command : String) (limits : JobLimits)
    (now : SystemTime) (layout : Layout) :
    ((r.submitJob command limits now layout).value.2.jobs).Perm
      (r.jobs ++ [newJob (jobId (r.jobCounter + 1)) command limits now]) := by
  have hfresh := h.jobId_fresh
  refine (layout.perm _).trans ?_
  have hid : (newJob (jobId (r.jobCounter + 1)) command limits now).id =
      jobId (r.jobCounter + 1) := rfl
  rw [insertOrAssign, hid, if_neg hfresh]

theorem not_mem_startedJobs_of_mem_jobQueue (t : Tick) {id : String}
    (hid : id ∈ (r.startPhase t).value.jobQueue) : id ∉ r.startedJobs t := by
  have hnodup := h.queue_nodup
  rw [← startedJobs_append_jobQueue t r, List.nodup_append] at hnodup
  exact fun hstarted => hnodup.2.2 id hstarted id hid rfl

/-- A job is started only while it waits, and scanned only while it runs. -/
theorem running_of_mem_scannedJobs (t : Tick) {job : Job}
    (hjob : job ∈ r.jobs) (hscan : job.id ∈ r.scannedJobs t) :
    (if job.id ∈ r.startedJobs t then (startJob t job).value else job).status =
      .running := by
  obtain ⟨scanned, hmem, hactive, hid⟩ :=
    (mem_runningJobs _).mp (selectedJobs_subset _ _ hscan)
  rw [h.jobs_startPhase_eq_map t] at hmem
  obtain ⟨source, hsource, rfl⟩ := List.mem_map.mp hmem
  have hsame : source.id = job.id := by
    rw [← hid]
    split
    · exact (startJob_id t source).symm
    · rfl
  have heq := Keyed.eq_of_key_eq h.ids_nodup hsource hjob hsame
  subst heq
  by_cases hstart : source.id ∈ r.startedJobs t
  · simp only [hstart, if_true, startJob, Job.isActive, Job.status_start]
      at hactive ⊢
    by_cases hok : (t.spawn source.id).succeeded = true <;>
      simp [hok] at hactive ⊢
  · have hsettled := h.settled source hsource
    simpa [hstart, Job.isActive, hsettled] using hactive

end WellFormed

def Guard (job : Job) : JobAction → Prop
  | .start .. => job.status = .queued ∨ job.status = .cancelled
  | .scan .. => job.status = .running
  | .cancel .. => True

namespace WellFormed

variable {r : JobRunner} (h : r.WellFormed)

include h

theorem guard_along (op : Op) {job : Job} (hjob : job ∈ r.jobs) :
    jobMachine.Along Guard job (r.actionsOn op job.id) := by
  cases op with
  | submit command limits now layout => trivial
  | cancel id answers =>
      simp only [actionsOn]
      split <;> simp [Machine.Along, Guard]
  | tick t =>
      have hwaiting : job.id ∈ r.startedJobs t →
          job.status = .queued ∨ job.status = .cancelled := fun hstart =>
        h.waiting job hjob (startedJobs_subset t r hstart)
      have hrunning := h.running_of_mem_scannedJobs t hjob
      by_cases hstart : job.id ∈ r.startedJobs t <;>
        by_cases hscan : job.id ∈ r.scannedJobs t <;>
          simp_all [actionsOn, tickActions, Machine.Along, Guard, jobMachine,
            Job.act, startJob]

/-- After a tick a job still waits exactly if it has not been started, and then
nothing has happened to it. -/
theorem tickActions_eq_nil_of_waiting (t : Tick) {job : Job}
    (hjob : job ∈ r.jobs) (hqueue : job.id ∈ (r.startPhase t).value.jobQueue) :
    r.tickActions t job.id = [] := by
  have hstart := h.not_mem_startedJobs_of_mem_jobQueue t hqueue
  have hold : job.id ∈ r.jobQueue := by
    rw [← startedJobs_append_jobQueue t r]
    exact List.mem_append_right _ hqueue
  have hscan : job.id ∉ r.scannedJobs t := by
    intro hscan
    have hrunning := h.running_of_mem_scannedJobs t hjob hscan
    rw [if_neg hstart] at hrunning
    rcases h.waiting job hjob hold with hstatus | hstatus <;>
      simp [hrunning] at hstatus
  simp [tickActions, hstart, hscan]

end WellFormed

/-- What an action can do to the status: nothing, a step of the lifecycle, or
starting a job that was cancelled in the queue. -/
theorem status_act_cases {job : Job} {action : JobAction}
    (hguard : Guard job action) :
    (job.status ≠ .queued ∧ (job.act action).value.status = job.status) ∨
      job.status.Next (job.act action).value.status ∨
      (job.status = .cancelled ∧
        ((job.act action).value.status = .running ∨
          (job.act action).value.status = .failed)) := by
  cases action with
  | start nowMs answer =>
      simp only [Job.act, Job.status_start]
      rcases hguard with hstatus | hstatus <;>
        cases hok : answer.succeeded <;> simp [hstatus] <;> constructor
  | scan nowMs answers =>
      have hrunning : job.status = .running := hguard
      simp only [Job.act, Job.status_scan, hrunning]
      cases (job.drainBoth answers).value.scanOutcome nowMs answers with
      | reaped status =>
          simp only [ScanOutcome.status]
          split
          · exact .inr (.inl .completed)
          · exact .inr (.inl .failed)
      | expired => exact .inr (.inl .timeout)
      | truncated => exact .inl ⟨by simp, rfl⟩
      | overCap => exact .inr (.inl .procLimit)
      | kept => exact .inl ⟨by simp, rfl⟩
  | cancel answers =>
      simp only [Job.act, Job.status_cancel]
      by_cases hrunning : job.status = .running
      · simpa [hrunning] using JobStatus.Next.stopped
      · by_cases hqueued : job.status = .queued
        · simpa [hqueued] using JobStatus.Next.withdrawn
        · simp [hrunning, hqueued]

theorem status_act_ne_queued {job : Job} {action : JobAction}
    (hguard : Guard job action) : (job.act action).value.status ≠ .queued := by
  rcases status_act_cases hguard with ⟨hne, heq⟩ | hnext | ⟨_, h | h⟩
  · rwa [heq]
  · intro h
    exact JobStatus.not_next_queued _ (h ▸ hnext)
  · simp [h]
  · simp [h]

theorem status_act_ne_starting {job : Job} {action : JobAction}
    (hguard : Guard job action) (hsettled : job.status ≠ .starting) :
    (job.act action).value.status ≠ .starting := by
  rcases status_act_cases hguard with ⟨_, heq⟩ | hnext | ⟨_, h | h⟩
  · rwa [heq]
  · intro h
    exact JobStatus.not_next_starting _ (h ▸ hnext)
  · simp [h]
  · simp [h]

theorem status_run_ne_starting {job : Job} {actions : List JobAction}
    (hguard : jobMachine.Along Guard job actions)
    (hsettled : job.status ≠ .starting) :
    (jobMachine.run job actions).value.status ≠ .starting :=
  Machine.invariant_along (I := fun job => job.status ≠ .starting)
    (fun _ _ hI hP => status_act_ne_starting hP hI) hsettled hguard

/-- A job that is still QUEUED has not been acted upon. -/
theorem eq_nil_of_status_run_eq_queued {job : Job} {actions : List JobAction}
    (hguard : jobMachine.Along Guard job actions)
    (hqueued : (jobMachine.run job actions).value.status = .queued) :
    actions = [] := by
  induction actions using List.reverseRecOn with
  | nil => rfl
  | append_singleton actions last _ =>
      have hlast := (Machine.along_concat.mp hguard).2
      rw [Machine.value_run_concat] at hqueued
      exact False.elim (status_act_ne_queued hlast hqueued)

@[simp] theorem jobQueue_submitJob (command : String) (limits : JobLimits)
    (now : SystemTime) (layout : Layout) (r : JobRunner) :
    (r.submitJob command limits now layout).value.2.jobQueue =
      r.jobQueue ++ [jobId (r.jobCounter + 1)] :=
  rfl

namespace WellFormed

variable {r : JobRunner} (h : r.WellFormed)

include h

theorem mem_submitJob {command : String} {limits : JobLimits}
    {now : SystemTime} {layout : Layout} {job : Job}
    (hjob : job ∈ (r.submitJob command limits now layout).value.2.jobs) :
    job ∈ r.jobs ∨
      job = newJob (jobId (r.jobCounter + 1)) command limits now := by
  rwa [(h.jobs_submitJob command limits now layout).mem_iff, List.mem_append,
    List.mem_singleton] at hjob

/-- The new job is the last one in the queue. -/
theorem waiting_submitJob {command : String} {limits : JobLimits}
    {now : SystemTime} {layout : Layout} {job : Job}
    (hjob : job ∈ (r.submitJob command limits now layout).value.2.jobs)
    (hqueue : job.id ∈
      (r.submitJob command limits now layout).value.2.jobQueue) :
    (job ∈ r.jobs ∧ job.id ∈ r.jobQueue) ∨
      job = newJob (jobId (r.jobCounter + 1)) command limits now := by
  rcases h.mem_submitJob hjob with hold | hnew
  · rw [jobQueue_submitJob, List.mem_append, List.mem_singleton] at hqueue
    refine .inl ⟨hold, hqueue.resolve_right fun hid => ?_⟩
    exact h.jobId_fresh (hid ▸ List.mem_map_of_mem hold)
  · exact .inr hnew

theorem submitJob_wellFormed (command : String) (limits : JobLimits)
    (now : SystemTime) (layout : Layout) :
    (r.submitJob command limits now layout).value.2.WellFormed := by
  have hids := (h.jobs_submitJob command limits now layout).map Job.id
  rw [List.map_append] at hids
  have hfresh := h.jobId_fresh
  constructor
  case ids_nodup =>
    rw [hids.nodup_iff, List.map_singleton, ← List.concat_eq_append,
      List.nodup_concat]
    exact ⟨hfresh, h.ids_nodup⟩
  case ids_drawn =>
    intro job hjob
    rcases h.mem_submitJob hjob with hold | rfl
    · obtain ⟨k, hk, hid⟩ := h.ids_drawn job hold
      exact ⟨k, Nat.le_succ_of_le hk, hid⟩
    · exact ⟨r.jobCounter + 1, le_rfl, rfl⟩
  case queue_nodup =>
    rw [jobQueue_submitJob, ← List.concat_eq_append, List.nodup_concat]
    exact ⟨fun hqueue => hfresh (h.queue_known hqueue), h.queue_nodup⟩
  case queue_known =>
    intro id hid
    rw [hids.mem_iff]
    rcases List.mem_append.mp hid with hold | hnew
    · exact List.mem_append_left _ (h.queue_known hold)
    · exact List.mem_append_right _ hnew
  case waiting =>
    intro job hjob hqueue
    rcases h.waiting_submitJob hjob hqueue with ⟨hold, hin⟩ | rfl
    · exact h.waiting job hold hin
    · exact .inl rfl
  case queued_waiting =>
    intro job hjob hqueued
    rw [jobQueue_submitJob]
    rcases h.mem_submitJob hjob with hold | rfl
    · exact List.mem_append_left _ (h.queued_waiting job hold hqueued)
    · exact List.mem_append_right _ (List.mem_singleton.mpr rfl)
  case settled =>
    intro job hjob
    rcases h.mem_submitJob hjob with hold | rfl
    · exact h.settled job hold
    · simp [newJob]

/-- The invariant survives what acts on the jobs and keeps, of the queue, the
jobs it did not act on or only withdrew. -/
theorem of_actions {r' : JobRunner} (actions : Job → List JobAction)
    (hguard : ∀ job ∈ r.jobs, jobMachine.Along Guard job (actions job))
    (hjobs : r'.jobs = r.jobs.map fun job =>
      (jobMachine.run job (actions job)).value)
    (hcounter : r'.jobCounter = r.jobCounter)
    (hqueue : r'.jobQueue.Sublist r.jobQueue)
    (hwaiting : ∀ job ∈ r.jobs, job.id ∈ r'.jobQueue →
      (jobMachine.run job (actions job)).value.status = .queued ∨
      (jobMachine.run job (actions job)).value.status = .cancelled)
    (hkept : ∀ job ∈ r.jobs, actions job = [] →
      job.id ∈ r.jobQueue → job.id ∈ r'.jobQueue) :
    r'.WellFormed := by
  have hids : r'.jobs.map Job.id = r.jobs.map Job.id := by
    rw [hjobs, List.map_map]
    exact List.map_congr_left fun job _ => Job.id_run _ job
  have hmem : ∀ job' ∈ r'.jobs, ∃ job ∈ r.jobs,
      (jobMachine.run job (actions job)).value = job' := by
    intro job' hjob'
    rw [hjobs] at hjob'
    exact List.mem_map.mp hjob'
  constructor
  case ids_nodup =>
    rw [hids]
    exact h.ids_nodup
  case ids_drawn =>
    intro job' hjob'
    obtain ⟨job, hjob, rfl⟩ := hmem job' hjob'
    rw [hcounter, Job.id_run]
    exact h.ids_drawn job hjob
  case queue_nodup =>
    exact h.queue_nodup.sublist hqueue
  case queue_known =>
    intro id hid
    rw [hids]
    exact h.queue_known (hqueue.subset hid)
  case waiting =>
    intro job' hjob' hin
    obtain ⟨job, hjob, rfl⟩ := hmem job' hjob'
    rw [Job.id_run] at hin
    exact hwaiting job hjob hin
  case queued_waiting =>
    intro job' hjob' hqueued
    obtain ⟨job, hjob, rfl⟩ := hmem job' hjob'
    have hnil := eq_nil_of_status_run_eq_queued (hguard job hjob) hqueued
    rw [hnil, Machine.run_nil, Traced.value_pure] at hqueued ⊢
    exact hkept job hjob hnil (h.queued_waiting job hjob hqueued)
  case settled =>
    intro job' hjob'
    obtain ⟨job, hjob, rfl⟩ := hmem job' hjob'
    exact status_run_ne_starting (hguard job hjob) (h.settled job hjob)

omit h in
theorem jobQueue_tick (t : Tick) :
    (r.tick t).value.jobQueue = (r.startPhase t).value.jobQueue :=
  (checkJobLimits_frame t.nowMs t.maxLimitScansPerTick t.scan
    (r.startPhase t).value).2.2.2

theorem tick_wellFormed (t : Tick) : (r.tick t).value.WellFormed := by
  have hqueue := startedJobs_append_jobQueue t r
  refine h.of_actions (fun job => r.tickActions t job.id)
    (fun _ hjob => h.guard_along (.tick t) hjob) (h.jobs_tick t) ?_ ?_ ?_ ?_
  · have hframe := checkJobLimits_frame t.nowMs t.maxLimitScansPerTick t.scan
      (r.startPhase t).value
    exact hframe.2.2.1.trans (jobCounter_startPhase t r)
  · rw [jobQueue_tick t, ← hqueue]
    exact List.sublist_append_right _ _
  · intro job hjob hin
    rw [jobQueue_tick t] at hin
    have hnil := h.tickActions_eq_nil_of_waiting t hjob hin
    have hold : job.id ∈ r.jobQueue := by
      rw [← hqueue]
      exact List.mem_append_right _ hin
    simpa [hnil] using h.waiting job hjob hold
  · intro job _ hnil hold
    rw [jobQueue_tick t]
    rw [← hqueue] at hold
    refine (List.mem_append.mp hold).resolve_left ?_
    intro hstart
    simp [tickActions, hstart] at hnil

theorem running_of_mem_selectedJobs {k : Nat} {job : Job}
    (hjob : job ∈ r.jobs) (hselected : job.id ∈ r.selectedJobs k) :
    job.status = .running := by
  have hactive := isActive_of_mem_selectedJobs h.ids_nodup hjob hselected
  simpa [Job.isActive, h.settled job hjob] using hactive

/-- A check of the limits outside of a tick keeps the invariant as well. -/
theorem checkJobLimits_wellFormed (nowMs : UInt64) (k : Nat)
    (scan : String → ScanAnswers) :
    (r.checkJobLimits nowMs k scan).value.WellFormed := by
  obtain ⟨-, -, hcounter, hqueue⟩ := checkJobLimits_frame nowMs k scan r
  refine h.of_actions
    (fun job => if job.id ∈ r.selectedJobs k then
      [.scan nowMs (scan job.id)] else []) ?_ ?_ hcounter ?_ ?_ ?_
  · intro job hjob
    by_cases hselected : job.id ∈ r.selectedJobs k
    · rw [if_pos hselected]
      exact ⟨h.running_of_mem_selectedJobs hjob hselected, trivial⟩
    · rw [if_neg hselected]
      trivial
  · rw [jobs_checkJobLimits, Keyed.value_modifyAll (scanJob_id nowMs scan)
      (selectedJobs_nodup k r h.ids_nodup) h.ids_nodup]
    apply List.map_congr_left
    intro job _
    by_cases hselected : job.id ∈ r.selectedJobs k <;>
      simp [hselected, scanJob, jobMachine, Job.act]
  · rw [hqueue]
  · intro job hjob hin
    rw [hqueue] at hin
    have hwaiting := h.waiting job hjob hin
    have hunselected : job.id ∉ r.selectedJobs k := by
      intro hselected
      rw [h.running_of_mem_selectedJobs hjob hselected] at hwaiting
      simp at hwaiting
    simpa [hunselected] using hwaiting
  · intro job _ _ hin
    rwa [hqueue]

theorem cancelJob_wellFormed (id : String) (answers : CancelAnswers) :
    (r.cancelJob id answers).value.2.WellFormed := by
  have hframe : (r.cancelJob id answers).value.2.jobCounter = r.jobCounter ∧
      (r.cancelJob id answers).value.2.jobQueue = r.jobQueue := by
    unfold cancelJob
    cases Keyed.lookup? Job.id id r.jobs <;> exact ⟨rfl, rfl⟩
  refine h.of_actions (fun job => r.actionsOn (.cancel id answers) job.id)
    (fun _ hjob => h.guard_along (.cancel id answers) hjob)
    (h.jobs_cancelJob id answers)
    hframe.1 ?_ ?_ ?_
  · rw [hframe.2]
  · intro job hjob hin
    rw [hframe.2] at hin
    have hwaits := h.waiting job hjob hin
    simp only [actionsOn]
    split
    · simp only [jobMachine, Machine.value_run_cons, Machine.run_nil,
        Traced.value_pure, Job.act, Job.status_cancel]
      rcases hwaits with hstatus | hstatus <;> simp [hstatus]
    · exact hwaits
  · intro job _ _ hin
    rwa [hframe.2]

theorem apply_wellFormed (op : Op) : (r.apply op).value.WellFormed := by
  cases op with
  | submit command limits now layout =>
      exact h.submitJob_wellFormed command limits now layout
  | cancel id answers => exact h.cancelJob_wellFormed id answers
  | tick t => exact h.tick_wellFormed t

end WellFormed

/-- A job as the scan of a tick finds it. -/
def afterStart (t : Tick) (r : JobRunner) (job : Job) : Job :=
  if job.id ∈ r.startedJobs t then (startJob t job).value else job

section Tick

variable {r : JobRunner} (t : Tick) (job : Job)

@[simp] theorem id_afterStart : (r.afterStart t job).id = job.id := by
  unfold afterStart
  split
  · exact startJob_id t job
  · rfl

theorem value_run_tickActions :
    (jobMachine.run job (r.tickActions t job.id)).value =
      if job.id ∈ r.scannedJobs t then
        ((r.afterStart t job).scan t.nowMs (t.scan job.id)).value
      else
        r.afterStart t job := by
  by_cases hstart : job.id ∈ r.startedJobs t <;>
    by_cases hscan : job.id ∈ r.scannedJobs t <;>
      simp [tickActions, afterStart, hstart, hscan, jobMachine, Job.act,
        startJob]

/-- The calls of a start come before those of the scan. -/
theorem events_run_tickActions :
    (jobMachine.run job (r.tickActions t job.id)).events =
      (if job.id ∈ r.startedJobs t then
          [.spawnCalled job.id (t.spawn job.id)]
        else
          []) ++
        if job.id ∈ r.scannedJobs t then
          ((r.afterStart t job).scan t.nowMs (t.scan job.id)).events
        else
          [] := by
  by_cases hstart : job.id ∈ r.startedJobs t <;>
    by_cases hscan : job.id ∈ r.scannedJobs t <;>
      simp [tickActions, afterStart, hstart, hscan, jobMachine, Job.act,
        startJob, Job.events_start]

theorem WellFormed.mem_startPhase_iff (h : r.WellFormed) :
    job ∈ (r.startPhase t).value.jobs ↔
      ∃ source ∈ r.jobs, r.afterStart t source = job := by
  rw [h.jobs_startPhase_eq_map t, List.mem_map]
  rfl

end Tick

end JobRunner

theorem runJobs_wellFormed (maxConcurrentJobs : Nat) (ops : List Op) :
    (runJobs maxConcurrentJobs ops).value.WellFormed :=
  Machine.invariant_run (I := JobRunner.WellFormed)
    (fun _ op h => h.apply_wellFormed op)
    (JobRunner.create_wellFormed maxConcurrentJobs) ops

end HeidiKernel
