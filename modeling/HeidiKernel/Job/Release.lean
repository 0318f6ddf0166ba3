import HeidiKernel.Job.Lifecycle
import HeidiKernel.Job.Record

namespace HeidiKernel

open HeidiKernel.Transition

/-! What a finished job leaves behind. Reaping closes both pipes and has
collected the leader; every other way of ending a running job does neither, and
nobody scans the job again. -/

/-- Both read ends have been closed, once each, and the leader has been
collected. -/
structure Released (answer : SpawnAnswer) (job : Job)
    (history : List Event) : Prop where
  fds : ∀ stream, job.fd stream = -1
  closes : ∀ stream, closedFds stream history = answer.openFds stream
  collected : ∀ group, answer.processGroup? = some group →
    collectedLeaders history = [group]

namespace JobRunner

/-- In every state of the run, whatever was spawned and is over has been
released. -/
def NoLeak (maxConcurrentJobs : Nat) (ops : List Op) : Prop :=
  ∀ before after, ops = before ++ after →
    let run := runJobs maxConcurrentJobs before
    ∀ job ∈ run.value.jobs, job.status.isTerminal →
      ∀ answer, .spawnCalled job.id answer ∈ run.events → answer.succeeded →
        Released answer job (ownedBy job.id run.events)

/-- An action ends a running job by reaping it, if it ends it at all. -/
def EndsByReaping (job : Job) : JobAction → Prop
  | .start .. => True
  | .scan nowMs answers =>
      let drained := (job.drainBoth answers).value
      drained.scanOutcome nowMs answers ≠ .expired ∧
        drained.scanOutcome nowMs answers ≠ .overCap
  | .cancel _ => job.status ≠ .running

/-- The record of a run in which every job ends by being reaped. -/
structure ReleaseRecord (job : Job) (history : List Event) : Prop where
  record : Record job history
  released : job.status.isTerminal → ∀ answer ∈ spawnAnswers history,
    answer.succeeded → (∀ stream, job.fd stream = -1) ∧
      ∀ group, answer.processGroup? = some group →
        collectedLeaders history = [group]

theorem ReleaseRecord.toReleased {job : Job} {history : List Event}
    (h : ReleaseRecord job history) (hterminal : job.status.isTerminal)
    {answer : SpawnAnswer} (hanswer : answer ∈ spawnAnswers history)
    (hspawned : answer.succeeded) : Released answer job history := by
  obtain ⟨hfds, hcollected⟩ := h.released hterminal answer hanswer hspawned
  refine ⟨hfds, fun stream => ?_, hcollected⟩
  have hledger := h.record.ledger stream
  rwa [hfds, openFds, if_pos rfl, List.append_nil, openedFds,
    h.record.spawnAnswers_eq hanswer, List.flatMap_singleton] at hledger

theorem spawnAnswers_act {job : Job} {history : List Event}
    {action : JobAction} {answer : SpawnAnswer}
    (hanswer : answer ∈ spawnAnswers (history ++ (job.act action).events)) :
    answer ∈ spawnAnswers history ∨
      ∃ nowMs, action = .start nowMs answer := by
  rw [spawnAnswers_append, List.mem_append] at hanswer
  rcases hanswer with hold | hnew
  · exact .inl hold
  · cases action with
    | start nowMs other =>
        rw [Job.act, Job.events_start] at hnew
        obtain rfl : answer = other := List.mem_singleton.mp hnew
        exact .inr ⟨nowMs, rfl⟩
    | scan nowMs answers =>
        rw [Job.act, spawnAnswers, ignores_spawnAnswer?.scan] at hnew
        contradiction
    | cancel answers =>
        rw [Job.act, spawnAnswers, ignores_spawnAnswer?.cancel] at hnew
        contradiction

/-- A scan that neither times a job out nor finds too many processes ends it
only by reaping it. -/
theorem isSome_of_isTerminal_scan {nowMs : UInt64} {answers : ScanAnswers}
    {job : Job} (hrunning : job.status = .running)
    (hends : EndsByReaping job (.scan nowMs answers))
    (hterminal : (job.scan nowMs answers).value.status.isTerminal) :
    ∃ status, (job.drainBoth answers).value.collected? answers =
        some status ∧
      (job.drainBoth answers).value.scanOutcome nowMs answers =
        .reaped status := by
  cases hcollected : (job.drainBoth answers).value.collected? answers with
  | some status => exact ⟨status, rfl, by simp [Job.scanOutcome, hcollected]⟩
  | none =>
      rw [Job.status_scan, hrunning] at hterminal
      have hnot : ∀ status, (job.drainBoth answers).value.scanOutcome nowMs
          answers ≠ .reaped status := by
        intro status
        simp only [Job.scanOutcome, hcollected]
        split_ifs <;> simp
      simp only [EndsByReaping] at hends
      cases hend : (job.drainBoth answers).value.scanOutcome nowMs answers with
      | reaped status => exact False.elim (hnot status hend)
      | expired => exact False.elim (hends.1 hend)
      | overCap => exact False.elim (hends.2 hend)
      | truncated | kept =>
          simp [hend, ScanOutcome.status, JobStatus.isTerminal] at hterminal

theorem ReleaseRecord.act {job : Job} {history : List Event}
    (h : ReleaseRecord job history) {action : JobAction}
    (hfits : Fits job history action) (hends : EndsByReaping job action) :
    ReleaseRecord (job.act action).value
      (history ++ (job.act action).events) := by
  refine ⟨h.record.act action hfits, ?_⟩
  intro hterminal answer hanswer hspawned
  rcases spawnAnswers_act hanswer with hold | ⟨nowMs, rfl⟩
  · cases action with
    | start nowMs other =>
        rw [hfits.2] at hold
        contradiction
    | scan nowMs answers =>
        have hrunning : job.status = .running := hfits.1
        have hgroup := h.record.processGroup_of_running hrunning hold
        obtain ⟨status, hcollected, hend⟩ :=
          isSome_of_isTerminal_scan hrunning hends hterminal
        refine ⟨fun stream => ?_, fun group hgroup' => ?_⟩
        · simp only [Job.act, Job.scan_eq, Traced.value_bind, hend,
            Job.conclude]
          exact Job.fd_reap _ _ _ _
        · rw [hgroup] at hgroup'
          rw [collectedLeaders_append, h.record.uncollected hrunning,
            Job.act, Job.collectedLeaders_scan, hcollected]
          simpa using hgroup'
    | cancel answers =>
        have hidle : job.status ≠ .running := hends
        have hqueued : job.status ≠ .queued := by
          intro hqueued
          rw [h.record.queued hqueued] at hold
          contradiction
        have hvalue : (job.cancel answers).value = job := by
          simp [Job.value_cancel, hidle, hqueued]
        have hevents : (job.cancel answers).events = [] := by
          simp [Job.events_cancel, hidle]
        simp only [Job.act, hvalue, hevents, List.append_nil] at hterminal ⊢
        exact h.released hterminal answer hold hspawned
  · simp only [Job.act, Job.status_start, hspawned, if_true,
      JobStatus.isTerminal] at hterminal
    contradiction

/-- An action that ends a running job without reaping it leaks it. -/
theorem leaks_of_not_endsByReaping {job : Job} {history : List Event}
    (h : Record job history) {action : JobAction}
    (hfits : Fits job history action) (hends : ¬EndsByReaping job action) :
    (job.act action).value.status.isTerminal ∧
      ∃ answer ∈ spawnAnswers (history ++ (job.act action).events),
        answer.succeeded ∧ ¬Released answer (job.act action).value
          (history ++ (job.act action).events) := by
  have hrunning : job.status = .running := by
    cases action with
    | start nowMs answer => exact False.elim (hends trivial)
    | scan nowMs answers => exact hfits.1
    | cancel answers => exact not_not.mp hends
  obtain ⟨answer, hanswer, hgroup⟩ := h.running hrunning
  have hspawned : answer.succeeded = true := by
    cases answer with
    | spawned => rfl
    | failed => simp [SpawnAnswer.processGroup?] at hgroup
  -- the leader of a running job has not been collected, and is not now
  have hkey : (job.act action).value.status.isTerminal ∧
      collectedLeaders (job.act action).events = [] := by
    cases action with
    | start nowMs answer => exact False.elim (hends trivial)
    | scan nowMs answers =>
        have hend : (job.drainBoth answers).value.scanOutcome nowMs answers =
              .expired ∨
            (job.drainBoth answers).value.scanOutcome nowMs answers =
              .overCap := by
          by_contra hneither
          exact hends (not_or.mp hneither)
        have hnone : (job.drainBoth answers).value.collected? answers =
            none := by
          cases hcollected :
              (job.drainBoth answers).value.collected? answers with
          | none => rfl
          | some status =>
              simp [Job.scanOutcome, hcollected] at hend
        simp only [Job.act, Job.status_scan, Job.collectedLeaders_scan, hnone]
        rcases hend with hend | hend <;>
          simp [hend, ScanOutcome.status, JobStatus.isTerminal]
    | cancel answers =>
        constructor
        · simp [Job.act, Job.status_cancel, hrunning, JobStatus.isTerminal]
        · exact Job.collectedLeaders_cancel answers job
  refine ⟨hkey.1, answer, ?_, hspawned, fun hreleased => ?_⟩
  · rw [spawnAnswers_append]
    exact List.mem_append_left _ hanswer
  · have hcollected := hreleased.collected _ hgroup
    rw [collectedLeaders_append, h.uncollected hrunning, hkey.2] at hcollected
    contradiction

section Exact

variable {maxConcurrentJobs : Nat} {ops : List Op}
  (hleak : NoLeak maxConcurrentJobs ops)

include hleak

/-- In a run without leaks the last action of every call ends its job by
reaping, if at all. -/
theorem endsByReaping_last {before after : List Op} {op : Op}
    (hsplit : ops = before ++ op :: after) {job : Job}
    (hjob : job ∈ (runJobs maxConcurrentJobs before).value.jobs)
    {front : List JobAction} {last : JobAction}
    (hactions : (runJobs maxConcurrentJobs before).value.actionsOn op job.id =
      front ++ [last]) :
    EndsByReaping (jobMachine.run job front).value last := by
  have htracks := runJobs_record maxConcurrentJobs before
  have hwf := htracks.accounts.wellFormed
  have hfits := htracks.accounts.fits_along op hjob
  rw [hactions, Machine.alongLog_append] at hfits
  have hrecord := Machine.history_alongLog (I := Record)
    (fun _ _ action hrecord hfits => hrecord.act action hfits)
    (htracks.jobs job hjob) hfits.1
  by_contra hends
  obtain ⟨hterminal, answer, hanswer, hspawned, hleaks⟩ :=
    leaks_of_not_endsByReaping hrecord hfits.2.1 hends
  have hvalue : (jobMachine.run job (front ++ [last])).value ∈
      (runJobs maxConcurrentJobs (before ++ [op])).value.jobs := by
    rw [apply_after, ← hactions]
    exact hwf.mem_jobs_apply op hjob
  have hevents : ownedBy job.id
      (runJobs maxConcurrentJobs (before ++ [op])).events =
        ownedBy job.id (runJobs maxConcurrentJobs before).events ++
          (jobMachine.run job front).events ++
          ((jobMachine.run job front).value.act last).events := by
    have hstep : (runJobs maxConcurrentJobs (before ++ [op])).events =
        (runJobs maxConcurrentJobs before).events ++
          ((runJobs maxConcurrentJobs before).value.apply op).events :=
      Machine.events_run_concat ..
    rw [hstep, ownedBy_append, hwf.ownedBy_apply op hjob, hactions,
      Machine.events_run_concat, List.append_assoc]
    rfl
  have hreleased := hleak (before ++ [op]) after (by simp [hsplit]) _ hvalue
  rw [Machine.value_run_concat] at hreleased
  rw [← hevents] at hanswer hleaks
  have hid : ((jobMachine.run job front).value.act last).value.id = job.id :=
    (Job.id_act _ _).trans (Job.id_run _ _)
  have hfinal := hreleased hterminal answer
    (by
      rw [← mem_spawnAnswers_ownedBy]
      exact hid ▸ hanswer) hspawned
  exact hleaks (hid ▸ hfinal)

theorem lifts_endsByReaping {before after : List Op} {op : Op}
    (hsplit : ops = before ++ op :: after) :
    Lifts EndsByReaping (runJobs maxConcurrentJobs before).value op := by
  intro job hjob
  have hlast := @endsByReaping_last _ _ hleak before after op hsplit job hjob
  cases op with
  | submit command limits now layout => trivial
  | cancel id answers =>
      simp only [actionsOn]
      split
      · rename_i hid
        have hactions : (runJobs maxConcurrentJobs before).value.actionsOn
            (.cancel id answers) job.id = [] ++ [.cancel answers] := by
          simp [actionsOn, hid]
        exact ⟨hlast hactions, trivial⟩
      · trivial
  | tick t =>
      generalize hfront : (if job.id ∈
        (runJobs maxConcurrentJobs before).value.startedJobs t then
          [JobAction.start t.nowMs (t.spawn job.id)] else []) = front
      have hstarts : jobMachine.Along EndsByReaping job front := by
        rw [← hfront]
        split
        · exact ⟨trivial, trivial⟩
        · trivial
      by_cases hscan :
          job.id ∈ (runJobs maxConcurrentJobs before).value.scannedJobs t
      · have hactions : (runJobs maxConcurrentJobs before).value.actionsOn
            (.tick t) job.id = front ++ [.scan t.nowMs (t.scan job.id)] := by
          rw [actionsOn, tickActions, hfront, if_pos hscan]
        rw [hactions, Machine.along_append]
        exact ⟨hstarts, hlast hactions, trivial⟩
      · rw [actionsOn, tickActions, hfront, if_neg hscan, List.append_nil]
        exact hstarts

end Exact

/-- A run leaks no pipe and leaves no child unreaped exactly if every job that
stops running does so by being reaped. -/
theorem noLeak_iff (maxConcurrentJobs : Nat) (ops : List Op) :
    NoLeak maxConcurrentJobs ops ↔
      runnerMachine.Along (Lifts EndsByReaping) (create maxConcurrentJobs)
        ops := by
  constructor
  · intro hleak
    rw [Machine.along_iff_forall_split]
    intro before op after hsplit
    exact lifts_endsByReaping hleak hsplit
  · intro halong before after hsplit
    subst hsplit
    have htracks := tracks_along (I := ReleaseRecord)
      (fun id command limits now =>
        ⟨newJob_record id command limits now, by
          simp [newJob, JobStatus.isTerminal]⟩)
      (fun _ _ _ hrecord hfits hends => hrecord.act hfits hends)
      (Machine.along_append.mp halong).1
    intro run job hjob hterminal answer hspawn hspawned
    exact (htracks.jobs job hjob).toReleased hterminal
      (mem_spawnAnswers_ownedBy.mpr hspawn) hspawned

/-- A job runs into its time limit while nobody polls its exit. -/
def timeoutRun : List Op :=
  [.submit "sleep 60" { maxRuntimeMs := 5 } 0 plainLayout,
    .tick plainTick, .tick { plainTick with nowMs := 2000 }]

theorem timed_out_job_leaks : ¬NoLeak 10 timeoutRun := by
  intro hleak
  have hjob : ∃ job ∈ (runJobs 10 timeoutRun).value.jobs,
      job.status.isTerminal ∧ job.id = "job_1" ∧ job.stdoutFd ≠ -1 ∧
        Event.spawnCalled "job_1" (.spawned 4242 none 5 6) ∈
          (runJobs 10 timeoutRun).events := by
    decide +kernel
  obtain ⟨job, hmem, hterminal, hid, hopen, hspawn⟩ := hjob
  have hreleased := hleak timeoutRun [] (by simp) job hmem hterminal
    (.spawned 4242 none 5 6) (hid ▸ hspawn) rfl
  exact hopen (hreleased.fds .stdout)

end JobRunner

end HeidiKernel
