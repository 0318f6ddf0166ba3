import HeidiKernel.Job.Queue

namespace HeidiKernel

open HeidiKernel.Transition
open HeidiKernel.Data

/-! The history of a job in a run: the calls made on its behalf. A property of
a job and its history holds throughout every run as soon as a submission
establishes it and every action on the job keeps it. -/

def ownedBy (id : String) (events : List Event) : List Event :=
  events.filter fun e => e.owner = id

@[simp] theorem ownedBy_append (id : String) (first second : List Event) :
    ownedBy id (first ++ second) = ownedBy id first ++ ownedBy id second :=
  List.filter_append ..

theorem mem_ownedBy {id : String} {events : List Event} {e : Event} :
    e ∈ ownedBy id events ↔ e ∈ events ∧ e.owner = id := by
  simp [ownedBy]

theorem not_mem_of_ownedBy_eq_nil {events : List Event} {e : Event}
    (h : ownedBy e.owner events = []) : e ∉ events := by
  intro hmem
  have howned := mem_ownedBy.mpr ⟨hmem, rfl⟩
  rw [h] at howned
  contradiction

def Event.spawnAnswer? : Event → Option SpawnAnswer
  | .spawnCalled _ answer => some answer
  | _ => none

/-- What the spawner has answered so far. -/
def spawnAnswers (events : List Event) : List SpawnAnswer :=
  events.filterMap Event.spawnAnswer?

@[simp] theorem spawnAnswers_append (first second : List Event) :
    spawnAnswers (first ++ second) =
      spawnAnswers first ++ spawnAnswers second :=
  List.filterMap_append

theorem mem_spawnAnswers_ownedBy {id : String} {events : List Event}
    {answer : SpawnAnswer} :
    answer ∈ spawnAnswers (ownedBy id events) ↔
      .spawnCalled id answer ∈ events := by
  simp only [spawnAnswers, List.mem_filterMap, mem_ownedBy]
  constructor
  · intro h
    obtain ⟨e, ⟨he, howner⟩, hanswer⟩ := h
    cases e <;> simp only [Event.spawnAnswer?, reduceCtorEq,
      Option.some.injEq] at hanswer
    subst hanswer
    simp only [Event.owner] at howner
    subst howner
    exact he
  · intro h
    exact ⟨_, ⟨h, rfl⟩, rfl⟩

theorem spawnAnswers_ownedBy_eq_nil {id : String} {events : List Event}
    (h : id ∉ spawnedJobs events) : spawnAnswers (ownedBy id events) = [] := by
  apply List.eq_nil_iff_forall_not_mem.mpr
  intro answer hanswer
  exact h (mem_spawnedJobs.mpr ⟨answer, mem_spawnAnswers_ownedBy.mp hanswer⟩)

namespace JobRunner

/-- Each action a call performs satisfies `P` on the job it meets. -/
def Lifts (P : Job → JobAction → Prop) (r : JobRunner) (op : Op) : Prop :=
  ∀ job ∈ r.jobs, jobMachine.Along P job (r.actionsOn op job.id)

namespace WellFormed

variable {r : JobRunner} (h : r.WellFormed)

include h

theorem jobs_apply (op : Op) :
    (∃ command limits now layout, op = .submit command limits now layout ∧
      (r.apply op).value.jobs.Perm
        (r.jobs ++ [newJob (jobId (r.jobCounter + 1)) command limits now])) ∨
    (r.apply op).value.jobs = r.jobs.map fun job =>
      (jobMachine.run job (r.actionsOn op job.id)).value := by
  cases op with
  | submit command limits now layout =>
      exact .inl ⟨command, limits, now, layout, rfl,
        h.jobs_submitJob command limits now layout⟩
  | cancel id answers => exact .inr (h.jobs_cancelJob id answers)
  | tick t => exact .inr (h.jobs_tick t)

/-- After a call each job of the table is what its actions made of it. -/
theorem mem_jobs_apply (op : Op) {job : Job} (hjob : job ∈ r.jobs) :
    (jobMachine.run job (r.actionsOn op job.id)).value ∈
      (r.apply op).value.jobs := by
  rcases h.jobs_apply op with ⟨_, _, _, _, rfl, hperm⟩ | heq
  · refine hperm.mem_iff.mpr (List.mem_append_left _ ?_)
    simpa [actionsOn] using hjob
  · rw [heq]
    exact List.mem_map_of_mem hjob

theorem ownedBy_apply (op : Op) {job : Job} (hjob : job ∈ r.jobs) :
    ownedBy job.id (r.apply op).events =
      (jobMachine.run job (r.actionsOn op job.id)).events := by
  cases op with
  | submit command limits now layout =>
      have hne : jobId (r.jobCounter + 1) ≠ job.id := by
        intro heq
        exact h.jobId_fresh (heq ▸ List.mem_map_of_mem hjob)
      simp [apply, submitJob, ownedBy, Event.owner, actionsOn, newJob, hne]
  | cancel id answers =>
      simpa [apply, ownedBy] using h.events_cancelJob_filter id answers hjob
  | tick t => exact h.events_tick_filter t hjob

/-- A call other than a submission only acts for jobs of the table. -/
theorem owner_mem_apply (op : Op) {e : Event} (he : e ∈ (r.apply op).events) :
    e.owner ∈ (r.apply op).value.jobs.map Job.id := by
  cases op with
  | submit command limits now layout =>
      have hperm := h.jobs_submitJob command limits now layout
      have hevent : e = .submitted (jobId (r.jobCounter + 1)) := by
        simpa [apply, submitJob, newJob] using he
      subst hevent
      refine ((hperm.map Job.id).mem_iff).mpr ?_
      simp [newJob, Event.owner]
  | cancel id answers =>
      have hids : (r.apply (.cancel id answers)).value.jobs.map Job.id =
          r.jobs.map Job.id := by
        simp only [apply, Traced.value_map]
        rw [h.jobs_cancelJob, List.map_map]
        exact List.map_congr_left fun job _ => Job.id_run _ job
      rw [hids]
      simp only [apply, Traced.events_map, cancelJob] at he
      cases hlookup : Keyed.lookup? Job.id id r.jobs with
      | none => simp [hlookup] at he
      | some job =>
          simp only [hlookup, Traced.events_bind, Traced.events_pure,
            List.append_nil] at he
          have howner := Keyed.owner_of_mem_events_modify Event.owner
            (fun job => (Job.stays_cancel answers job).owner) he
          rw [howner.1]
          exact howner.2
  | tick t =>
      have hids : (r.tick t).value.jobs.map Job.id = r.jobs.map Job.id := by
        rw [h.jobs_tick, List.map_map]
        exact List.map_congr_left fun job _ => Job.id_run _ job
      change e.owner ∈ (r.tick t).value.jobs.map Job.id
      rw [hids]
      have he' : e ∈ (r.tick t).events := he
      rw [events_tick] at he'
      rcases List.mem_append.mp he' with hstart | hscan
      · exact Keyed.owner_of_mem_events_modifyAll (startJob_id t) Event.owner
          (fun job => (Job.stays_start t.nowMs _ job).owner) h.ids_nodup hstart
      · rw [← h.ids_startPhase t]
        exact Keyed.owner_of_mem_events_modifyAll (scanJob_id t.nowMs t.scan)
          Event.owner (fun job => (Job.stays_scan t.nowMs _ job).owner)
          (h.ids_startPhase_nodup t) hscan

theorem ids_apply_subset (op : Op) :
    r.jobs.map Job.id ⊆ (r.apply op).value.jobs.map Job.id := by
  rcases h.jobs_apply op with ⟨_, _, _, _, _, hperm⟩ | heq
  · intro id hid
    refine ((hperm.map Job.id).mem_iff).mpr ?_
    rw [List.map_append]
    exact List.mem_append_left _ hid
  · rw [heq, List.map_map]
    intro id hid
    obtain ⟨job, hjob, rfl⟩ := List.mem_map.mp hid
    exact List.mem_map.mpr ⟨job, hjob, Job.id_run _ job⟩

end WellFormed

theorem apply_after (maxConcurrentJobs : Nat) (before : List Op) (op : Op) :
    (runJobs maxConcurrentJobs (before ++ [op])).value =
      ((runJobs maxConcurrentJobs before).value.apply op).value :=
  Machine.value_run_concat ..

/-- When a call may act on a job with a given history: a job is started only
once. -/
def Fits (job : Job) (history : List Event) (action : JobAction) : Prop :=
  Guard job action ∧
    match action with
    | .start .. => spawnAnswers history = []
    | .scan .. | .cancel .. => True

theorem Accounts.fits_along {r : JobRunner} {history : List Event}
    (h : Accounts r history) (op : Op) {job : Job} (hjob : job ∈ r.jobs) :
    jobMachine.AlongLog Fits job (ownedBy job.id history)
      (r.actionsOn op job.id) := by
  refine ((h.wellFormed.guard_along op hjob).alongLog _).and ?_
  cases op with
  | submit command limits now layout => trivial
  | cancel id answers =>
      simp only [actionsOn]
      split
      · exact ⟨trivial, trivial⟩
      · trivial
  | tick t =>
      have hfresh : job.id ∈ r.startedJobs t →
          spawnAnswers (ownedBy job.id history) = [] := by
        intro hstart
        have hnodup := drawnIds_nodup r.jobCounter
        rw [← h.drawn, ← h.spawned, List.nodup_append] at hnodup
        apply spawnAnswers_ownedBy_eq_nil
        intro hspawned
        exact hnodup.2.2 _ hspawned _ (startedJobs_subset t r hstart) rfl
      by_cases hstart : job.id ∈ r.startedJobs t <;>
        by_cases hscan : job.id ∈ r.scannedJobs t <;>
          simp [actionsOn, tickActions, hstart, hscan, Machine.AlongLog, hfresh]

/-- The state of a run in which `I` links every job with its history. -/
structure Tracks (I : Job → List Event → Prop) (r : JobRunner)
    (history : List Event) : Prop where
  accounts : Accounts r history
  owned : ∀ e ∈ history, e.owner ∈ r.jobs.map Job.id
  jobs : ∀ job ∈ r.jobs, I job (ownedBy job.id history)

section Tracks

variable {P : Job → JobAction → Prop} {I : Job → List Event → Prop}
  (hborn : ∀ id command limits now,
    I (newJob id command limits now) [.submitted id])
  (hact : ∀ job history action, I job history → Fits job history action →
    P job action → I (job.act action).value
      (history ++ (job.act action).events))

include hborn hact

theorem Tracks.apply {r : JobRunner} {history : List Event}
    (h : Tracks I r history) (op : Op) (hop : Lifts P r op) :
    Tracks I (r.apply op).value (history ++ (r.apply op).events) := by
  have hwf := h.accounts.wellFormed
  refine ⟨h.accounts.apply op, ?_, ?_⟩
  · intro e he
    rcases List.mem_append.mp he with hold | hnew
    · exact hwf.ids_apply_subset op (h.owned e hold)
    · exact hwf.owner_mem_apply op hnew
  · have hkept : ∀ job ∈ r.jobs,
        I (jobMachine.run job (r.actionsOn op job.id)).value
          (ownedBy job.id (history ++ (r.apply op).events)) := by
      intro job hjob
      rw [ownedBy_append, hwf.ownedBy_apply op hjob]
      have hfits := h.accounts.fits_along op hjob
      exact Machine.history_alongLog
        (fun job history action hI hP => hact job history action hI hP.1 hP.2)
        (h.jobs job hjob) (hfits.and ((hop job hjob).alongLog _))
    intro job' hjob'
    rcases hwf.jobs_apply op with ⟨command, limits, now, layout, rfl, hperm⟩ | heq
    · rcases List.mem_append.mp (hperm.mem_iff.mp hjob') with hold | hnew
      · exact hkept job' hold
      · rw [List.mem_singleton] at hnew
        subst hnew
        have hunknown : ownedBy (jobId (r.jobCounter + 1)) history = [] := by
          rw [ownedBy, List.filter_eq_nil_iff]
          intro e he heq
          rw [decide_eq_true_eq] at heq
          exact hwf.jobId_fresh (heq ▸ h.owned e he)
        have hlog : ownedBy (jobId (r.jobCounter + 1))
            (r.apply (.submit command limits now layout)).events =
              [.submitted (jobId (r.jobCounter + 1))] := by
          simp [JobRunner.apply, submitJob, ownedBy, newJob, Event.owner]
        change I _ (ownedBy (jobId (r.jobCounter + 1)) _)
        rw [ownedBy_append, hunknown, hlog]
        exact hborn _ command limits now
    · rw [heq] at hjob'
      obtain ⟨job, hjob, rfl⟩ := List.mem_map.mp hjob'
      rw [Job.id_run]
      exact hkept job hjob

/-- The induction rule for jobs of a run all of whose actions satisfy `P`. -/
theorem tracks_along {maxConcurrentJobs : Nat} {ops : List Op}
    (halong : runnerMachine.Along (Lifts P) (create maxConcurrentJobs) ops) :
    Tracks I (runJobs maxConcurrentJobs ops).value
      (runJobs maxConcurrentJobs ops).events := by
  have hinit : Tracks I (create maxConcurrentJobs) [] :=
    ⟨⟨create_wellFormed maxConcurrentJobs, rfl, rfl⟩, by simp,
      by simp [create]⟩
  have hrun := Machine.history_along (I := Tracks I)
    (fun _ _ op h hop => Tracks.apply hborn hact h op hop) hinit halong
  simpa [runJobs] using hrun

end Tracks

/-- The induction rule for the jobs of any run. -/
theorem tracks_run {I : Job → List Event → Prop}
    (hborn : ∀ id command limits now,
      I (newJob id command limits now) [.submitted id])
    (hact : ∀ job history action, I job history → Fits job history action →
      I (job.act action).value (history ++ (job.act action).events))
    (maxConcurrentJobs : Nat) (ops : List Op) :
    Tracks I (runJobs maxConcurrentJobs ops).value
      (runJobs maxConcurrentJobs ops).events :=
  tracks_along (P := fun _ _ => True) hborn
    (fun job history action hI hguard _ => hact job history action hI hguard)
    (Machine.Along.of_forall
      (fun _ _ _ _ => Machine.Along.of_forall (fun _ _ => trivial) _ _) _ _)

end JobRunner

end HeidiKernel
