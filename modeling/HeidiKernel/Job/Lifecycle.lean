import HeidiKernel.Job.History

namespace HeidiKernel

open HeidiKernel.Transition
open HeidiKernel.Data

/-! The lifecycle of the jobs of a run. Only the start loop can leave it: it
starts whatever the queue refers to, and a job cancelled in the queue is still
there. -/

namespace JobStatus

theorem Next.not_isTerminal {before after : JobStatus}
    (h : before.Next after) : before.isTerminal = false := by
  cases h <;> rfl

/-- A terminal status is final. -/
theorem eq_of_isTerminal {before after : JobStatus}
    (h : Relation.ReflTransGen Next before after)
    (hterminal : before.isTerminal) : after = before := by
  rcases h.cases_head with heq | ⟨_, hnext, _⟩
  · exact heq.symm
  · rw [hnext.not_isTerminal] at hterminal
    contradiction

end JobStatus

namespace JobRunner

/-- The status `get_job_status` shows for an id. -/
def statusOf (r : JobRunner) (id : String) : Option JobStatus :=
  (r.getJobStatus id).map Job.status

theorem mem_of_statusOf {r : JobRunner} {id : String} {status : JobStatus}
    (hstatus : r.statusOf id = some status) :
    ∃ job ∈ r.jobs, job.id = id ∧ job.status = status := by
  obtain ⟨job, hfind, rfl⟩ := Option.map_eq_some_iff.mp hstatus
  obtain ⟨hjob, hid⟩ := Keyed.lookup?_sound hfind
  exact ⟨job, hjob, hid, rfl⟩

/-- The jobs within reach of the start loop of a tick are QUEUED: those with
fewer successful spawns in front of them than the tick may start. -/
def StartsOnlyQueued (r : JobRunner) : Op → Prop
  | .submit .. | .cancel .. => True
  | .tick t => r.Admits t → ∀ i id, r.jobQueue[i]? = some id →
      (r.jobQueue.take i).countP (succeeds t) < r.startBudget t →
      r.statusOf id = some .queued

theorem startsOnlyQueued_tick {t : Tick} {r : JobRunner} :
    r.StartsOnlyQueued (.tick t) ↔
      ∀ id ∈ r.startedJobs t, r.statusOf id = some .queued := by
  simp only [StartsOnlyQueued, mem_startedJobs_iff]
  constructor
  · rintro h id ⟨hadmits, i, hget, hcount⟩
    exact h hadmits i id hget hcount
  · intro h hadmits i id hget hcount
    exact h id ⟨hadmits, i, hget, hcount⟩

/-- The action respects the queue: only QUEUED jobs are started. -/
def StartsQueued (job : Job) : JobAction → Prop
  | .start .. => job.status = .queued
  | .scan .. | .cancel .. => True

theorem next_act {job : Job} {action : JobAction}
    (hguard : Guard job action) (hstart : StartsQueued job action) :
    Relation.ReflTransGen JobStatus.Next job.status
      (job.act action).value.status := by
  rcases status_act_cases hguard with ⟨_, heq⟩ | hnext | ⟨hcancelled, hstarted⟩
  · rw [heq]
  · exact .single hnext
  · cases action with
    | start nowMs answer =>
        have hqueued : job.status = .queued := hstart
        simp [hcancelled] at hqueued
    | scan nowMs answers =>
        have hrunning : job.status = .running := hguard
        simp [hcancelled] at hrunning
    | cancel answers =>
        simp [Job.act, Job.status_cancel, hcancelled] at hstarted

theorem next_run {job : Job} {actions : List JobAction}
    (hguard : jobMachine.Along Guard job actions)
    (hstart : jobMachine.Along StartsQueued job actions) :
    Relation.ReflTransGen JobStatus.Next job.status
      (jobMachine.run job actions).value.status :=
  Machine.invariant_along
    (I := fun after => Relation.ReflTransGen JobStatus.Next job.status
      after.status)
    (fun _ _ hI hP => hI.trans (next_act hP.1 hP.2)) .refl
    (Machine.Along.and hguard hstart)

theorem act_of_isTerminal {job : Job} {action : JobAction}
    (hguard : Guard job action) (hstart : StartsQueued job action)
    (hterminal : job.status.isTerminal) : job.act action = pure job := by
  cases action with
  | start nowMs answer =>
      have hqueued : job.status = .queued := hstart
      simp [hqueued, JobStatus.isTerminal] at hterminal
  | scan nowMs answers =>
      have hrunning : job.status = .running := hguard
      simp [hrunning, JobStatus.isTerminal] at hterminal
  | cancel answers =>
      cases hstatus : job.status <;>
        simp_all [Job.act, Job.cancel, JobStatus.isTerminal]

theorem run_of_isTerminal {job : Job} {actions : List JobAction}
    (hguard : jobMachine.Along Guard job actions)
    (hstart : jobMachine.Along StartsQueued job actions)
    (hterminal : job.status.isTerminal) :
    jobMachine.run job actions = pure job := by
  induction actions with
  | nil => rfl
  | cons action actions ih =>
      have hact : jobMachine.step job action = pure job :=
        act_of_isTerminal hguard.1 hstart.1 hterminal
      have hrest := ih (by simpa [hact] using hguard.2)
        (by simpa [hact] using hstart.2)
      ext1 <;> simp [hact, hrest]

namespace WellFormed

variable {r : JobRunner} (h : r.WellFormed)

include h

theorem statusOf_of_mem {job : Job} (hjob : job ∈ r.jobs) :
    r.statusOf job.id = some job.status := by
  simp [statusOf, getJobStatus, Keyed.lookup?_of_mem h.ids_nodup hjob]

theorem statusOf_apply (op : Op) {job : Job} (hjob : job ∈ r.jobs) :
    (r.apply op).value.statusOf job.id =
      some (jobMachine.run job (r.actionsOn op job.id)).value.status := by
  have hmem := h.mem_jobs_apply op hjob
  have hstatus := (h.apply_wellFormed op).statusOf_of_mem hmem
  rwa [Job.id_run] at hstatus

theorem statusOf_apply_of_unknown (op : Op) {id : String} {status : JobStatus}
    (hunknown : r.statusOf id = none)
    (hstatus : (r.apply op).value.statusOf id = some status) :
    status = .queued := by
  obtain ⟨job', hjob', rfl, rfl⟩ := mem_of_statusOf hstatus
  have hnew : ∀ job ∈ r.jobs, job.id ≠ job'.id := by
    intro job hjob hid
    rw [← hid, h.statusOf_of_mem hjob] at hunknown
    contradiction
  rcases h.jobs_apply op with ⟨_, _, _, _, _, hperm⟩ | heq
  · rcases List.mem_append.mp (hperm.mem_iff.mp hjob') with hold | hborn
    · exact False.elim (hnew job' hold rfl)
    · rw [List.mem_singleton] at hborn
      rw [hborn]
      rfl
  · rw [heq] at hjob'
    obtain ⟨job, hjob, rfl⟩ := List.mem_map.mp hjob'
    exact False.elim (hnew job hjob (Job.id_run _ job).symm)

theorem lifts_startsQueued {op : Op} (hop : r.StartsOnlyQueued op) :
    Lifts StartsQueued r op := by
  intro job hjob
  cases op with
  | submit command limits now layout => trivial
  | cancel id answers =>
      simp only [actionsOn]
      split <;> simp [Machine.Along, StartsQueued]
  | tick t =>
      rw [startsOnlyQueued_tick] at hop
      have hqueued : job.id ∈ r.startedJobs t → job.status = .queued := by
        intro hstart
        have hstatus := hop job.id hstart
        rw [h.statusOf_of_mem hjob] at hstatus
        exact Option.some.inj hstatus
      by_cases hstart : job.id ∈ r.startedJobs t <;>
        by_cases hscan : job.id ∈ r.scannedJobs t <;>
          simp_all [actionsOn, tickActions, Machine.Along, StartsQueued]

/-- Starting a cancelled job leaves the lifecycle, however the tick goes on. -/
theorem status_run_of_started (t : Tick) {job : Job} (hjob : job ∈ r.jobs)
    (hstart : job.id ∈ r.startedJobs t) :
    (jobMachine.run job (r.tickActions t job.id)).value.status ≠
      .cancelled := by
  have hrunning := h.running_of_mem_scannedJobs t hjob
  rw [if_pos hstart] at hrunning
  have hstarted : (job.start t.nowMs (t.spawn job.id)).value.status ≠
      .cancelled := by
    rw [Job.status_start]
    split <;> simp
  by_cases hscan : job.id ∈ r.scannedJobs t
  · simp only [tickActions, hstart, hscan, if_true, List.singleton_append,
      Machine.value_run_cons, Machine.run_nil, Traced.value_pure]
    have hstatus : (job.start t.nowMs (t.spawn job.id)).value.status =
        .running := hrunning hscan
    simp only [jobMachine, Job.act, Job.status_scan, hstatus]
    cases (Job.drainBoth (t.scan job.id)
        (job.start t.nowMs (t.spawn job.id)).value).value.scanOutcome t.nowMs
        (t.scan job.id) with
    | reaped status =>
        simp only [ScanOutcome.status]
        split <;> simp
    | expired | truncated | overCap | kept => simp [ScanOutcome.status]
  · simpa [tickActions, hstart, hscan, jobMachine, Job.act] using hstarted

end WellFormed

/-- A job that is still QUEUED has never been handed to the spawner. -/
theorem not_spawned_of_queued (maxConcurrentJobs : Nat) (ops : List Op)
    {id : String}
    (hqueued : (runJobs maxConcurrentJobs ops).value.statusOf id =
      some .queued) (answer : SpawnAnswer) :
    .spawnCalled id answer ∉ (runJobs maxConcurrentJobs ops).events := by
  have htracks := tracks_run
    (I := fun job history => job.status = .queued →
      ∀ id answer, .spawnCalled id answer ∉ history)
    (by simp)
    (fun _ _ _ _ hfits hafter =>
      False.elim (status_act_ne_queued hfits.1 hafter))
    maxConcurrentJobs ops
  obtain ⟨job, hjob, rfl, hstatus⟩ := mem_of_statusOf hqueued
  intro hmem
  exact htracks.jobs job hjob hstatus job.id answer
    (mem_ownedBy.mpr ⟨hmem, rfl⟩)

/-- From a call on, a terminal job is left alone if the start loop only meets
QUEUED jobs. -/
theorem untouched_along {r : JobRunner} {ops : List Op} {id : String}
    {status : JobStatus} (hwf : r.WellFormed)
    (hstatus : r.statusOf id = some status) (hterminal : status.isTerminal)
    (halong : runnerMachine.Along StartsOnlyQueued r ops) :
    (runnerMachine.run r ops).value.statusOf id = some status ∧
      ownedBy id (runnerMachine.run r ops).events = [] := by
  have hrun := Machine.history_along (m := runnerMachine)
    (P := StartsOnlyQueued)
    (I := fun r history => r.WellFormed ∧ r.statusOf id = some status ∧
      ownedBy id history = [])
    (by
      rintro r history op ⟨hwf, hstatus, hhistory⟩ hop
      obtain ⟨job, hjob, rfl, rfl⟩ := mem_of_statusOf hstatus
      have hsame := run_of_isTerminal (hwf.guard_along op hjob)
        (hwf.lifts_startsQueued hop job hjob) hterminal
      refine ⟨hwf.apply_wellFormed op, ?_, ?_⟩
      · have hafter := hwf.statusOf_apply op hjob
        rw [hsame] at hafter
        exact hafter
      · have hevents := hwf.ownedBy_apply op hjob
        rw [hsame] at hevents
        rw [ownedBy_append, hhistory]
        exact hevents)
    ⟨hwf, hstatus, (rfl : ownedBy id [] = [])⟩ halong
  exact ⟨hrun.2.1, hrun.2.2⟩

/-- The lifecycle over a whole run, as `get_job_status` shows it. -/
structure Lifecycle (maxConcurrentJobs : Nat) (ops : List Op) : Prop where
  /-- A call moves a job along the edges of the lifecycle, if at all. -/
  changes : ∀ before op after, ops = before ++ op :: after → ∀ id status,
    (runJobs maxConcurrentJobs before).value.statusOf id = some status →
    ∃ status',
      (runJobs maxConcurrentJobs (before ++ [op])).value.statusOf id =
        some status' ∧
      Relation.ReflTransGen JobStatus.Next status status'
  born : ∀ before op after, ops = before ++ op :: after → ∀ id status,
    (runJobs maxConcurrentJobs before).value.statusOf id = none →
    (runJobs maxConcurrentJobs (before ++ [op])).value.statusOf id =
      some status → status = .queued
  final : ∀ before during after, ops = before ++ (during ++ after) →
    ∀ id status,
      (runJobs maxConcurrentJobs before).value.statusOf id = some status →
      status.isTerminal →
      (runJobs maxConcurrentJobs (before ++ during)).value.statusOf id =
        some status
  /-- A job cancelled while QUEUED is never handed to the spawner. -/
  withdrawn : ∀ before id answers after,
    ops = before ++ .cancel id answers :: after →
    (runJobs maxConcurrentJobs before).value.statusOf id = some .queued →
    ∀ answer, .spawnCalled id answer ∉ (runJobs maxConcurrentJobs ops).events

section

variable {maxConcurrentJobs : Nat} {ops : List Op}
  (halong : runnerMachine.Along StartsOnlyQueued (create maxConcurrentJobs)
    ops)

include halong

theorem changes_of_along {before after : List Op} {op : Op}
    (hsplit : ops = before ++ op :: after) {id : String} {status : JobStatus}
    (hstatus : (runJobs maxConcurrentJobs before).value.statusOf id =
      some status) :
    ∃ status',
      (runJobs maxConcurrentJobs (before ++ [op])).value.statusOf id =
        some status' ∧
      Relation.ReflTransGen JobStatus.Next status status' := by
  have hwf := runJobs_wellFormed maxConcurrentJobs before
  have hop := Machine.along_iff_forall_split.mp halong before op after hsplit
  obtain ⟨job, hjob, rfl, rfl⟩ := mem_of_statusOf hstatus
  rw [apply_after]
  exact ⟨_, hwf.statusOf_apply op hjob, next_run (hwf.guard_along op hjob)
    (hwf.lifts_startsQueued hop job hjob)⟩

theorem final_of_along {before during after : List Op}
    (hsplit : ops = before ++ (during ++ after)) {id : String}
    {status : JobStatus}
    (hstatus : (runJobs maxConcurrentJobs before).value.statusOf id =
      some status) (hterminal : status.isTerminal) :
    (runJobs maxConcurrentJobs (before ++ during)).value.statusOf id =
      some status := by
  subst hsplit
  have hduring := (Machine.along_append.mp
    (Machine.along_append.mp halong).2).1
  have huntouched := untouched_along
    (runJobs_wellFormed maxConcurrentJobs before) hstatus hterminal hduring
  rw [runJobs, Machine.value_run_append]
  exact huntouched.1

theorem withdrawn_of_along {before after : List Op} {id : String}
    {answers : CancelAnswers}
    (hsplit : ops = before ++ .cancel id answers :: after)
    (hqueued : (runJobs maxConcurrentJobs before).value.statusOf id =
      some .queued) (answer : SpawnAnswer) :
    .spawnCalled id answer ∉ (runJobs maxConcurrentJobs ops).events := by
  have hsplit' : ops = (before ++ [.cancel id answers]) ++ after := by
    simpa using hsplit
  have hwf := runJobs_wellFormed maxConcurrentJobs before
  obtain ⟨job, hjob, rfl, hstatus⟩ := mem_of_statusOf hqueued
  have hcancel : (runJobs maxConcurrentJobs
      (before ++ [.cancel job.id answers])).value.statusOf job.id =
        some .cancelled := by
    rw [apply_after, hwf.statusOf_apply _ hjob]
    simp [actionsOn, jobMachine, Job.act, Job.status_cancel, hstatus]
  have hsilent : ownedBy job.id ((runJobs maxConcurrentJobs before).value.apply
      (.cancel job.id answers)).events = [] := by
    rw [hwf.ownedBy_apply _ hjob]
    simp [actionsOn, jobMachine, Job.act, Job.cancel, hstatus]
  rw [hsplit', Machine.along_append] at halong
  have huntouched := untouched_along
    (runJobs_wellFormed maxConcurrentJobs _) hcancel rfl halong.2
  intro hmem
  rw [hsplit', runJobs, Machine.events_run_append] at hmem
  rw [Machine.events_run_concat] at hmem
  rcases List.mem_append.mp hmem with hearlier | hlater
  · rcases List.mem_append.mp hearlier with hbefore | hduring
    · exact not_spawned_of_queued maxConcurrentJobs before hqueued answer hbefore
    · exact not_mem_of_ownedBy_eq_nil (e := .spawnCalled job.id answer)
        hsilent hduring
  · exact not_mem_of_ownedBy_eq_nil (e := .spawnCalled job.id answer)
      huntouched.2 hlater

end

/-- Where the start loop reaches a job that is not QUEUED, it was cancelled in
the queue, and the tick moves it out of its terminal status. -/
theorem startsOnlyQueued_of_changes {r : JobRunner} (hwf : r.WellFormed)
    {op : Op} (hchanges : ∀ id status, r.statusOf id = some status →
      ∃ status', (r.apply op).value.statusOf id = some status' ∧
        Relation.ReflTransGen JobStatus.Next status status') :
    r.StartsOnlyQueued op := by
  cases op with
  | submit command limits now layout => trivial
  | cancel id answers => trivial
  | tick t =>
      rw [startsOnlyQueued_tick]
      intro id hstart
      have hqueue := startedJobs_subset t r hstart
      obtain ⟨job, hjob, rfl⟩ := List.mem_map.mp (hwf.queue_known hqueue)
      rcases hwf.waiting job hjob hqueue with hqueued | hcancelled
      · rw [hwf.statusOf_of_mem hjob, hqueued]
      · obtain ⟨status', hafter, hpath⟩ := hchanges job.id .cancelled
          (by rw [hwf.statusOf_of_mem hjob, hcancelled])
        have hfinal := JobStatus.eq_of_isTerminal hpath rfl
        rw [hwf.statusOf_apply _ hjob, hfinal] at hafter
        exact False.elim
          (hwf.status_run_of_started t hjob hstart (Option.some.inj hafter))

/-- A run keeps the lifecycle exactly if no tick finds a cancelled job within
reach of its start loop. -/
theorem lifecycle_iff (maxConcurrentJobs : Nat) (ops : List Op) :
    Lifecycle maxConcurrentJobs ops ↔
      runnerMachine.Along StartsOnlyQueued (create maxConcurrentJobs) ops := by
  constructor
  · intro hlife
    rw [Machine.along_iff_forall_split]
    intro before op after hsplit
    apply startsOnlyQueued_of_changes
      (runJobs_wellFormed maxConcurrentJobs before)
    intro id status hstatus
    have hchange := hlife.changes before op after hsplit id status hstatus
    rwa [apply_after] at hchange
  · intro halong
    constructor
    case changes =>
      intro before op after hsplit id status hstatus
      exact changes_of_along halong hsplit hstatus
    case born =>
      intro before op after _ id status hunknown hstatus
      rw [apply_after] at hstatus
      exact (runJobs_wellFormed maxConcurrentJobs
        before).statusOf_apply_of_unknown op hunknown hstatus
    case final =>
      intro before during after hsplit id status hstatus hterminal
      exact final_of_along halong hsplit hstatus hterminal
    case withdrawn =>
      intro before id answers after hsplit hqueued answer
      exact withdrawn_of_along halong hsplit hqueued answer

/-! An environment in which every spawn succeeds and every job goes on
running. -/

def plainTick : Tick where
  nowMs := 1000
  metrics := ⟨10, ⟨0, 0⟩⟩
  spawn := fun _ => .spawned 4242 none 5 6
  scan := fun _ => {}

def plainLayout : Layout := ⟨id, fun _ => .refl _⟩

def plainSubmit : Op := .submit "sleep 60" {} 0 plainLayout

def cancelThenTick : List Op :=
  [plainSubmit, .cancel "job_1" {}, .tick plainTick]

theorem cancelled_job_runs : ¬Lifecycle 10 cancelThenTick := by
  intro hlife
  have hfinal := hlife.final (cancelThenTick.take 2) (cancelThenTick.drop 2) []
    (by rfl) "job_1" .cancelled (by decide +kernel) rfl
  revert hfinal
  decide +kernel

end JobRunner

end HeidiKernel
