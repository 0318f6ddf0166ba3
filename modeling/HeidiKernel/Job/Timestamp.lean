import HeidiKernel.Job.Retention

namespace HeidiKernel

open HeidiKernel.Transition
open HeidiKernel.Data

/-! Which clock stamps the end of a job. A timeout and the process cap write
the time of the tick; a reap converts a reading of the system clock, and a
failed spawn writes nothing. -/

/-- The end an ending records, if it ends the job. -/
def ScanOutcome.endedAtMs (nowMs : UInt64) (now : SystemTime)
    (before : UInt64) : ScanOutcome → UInt64
  | .reaped _ => now.toMs
  | .expired | .overCap => nowMs
  | .truncated | .kept => before

namespace Job

@[simp] theorem endedAtMs_drain (stream : Stream) (answer : Option Bytes)
    (job : Job) :
    (job.drain stream answer).value.endedAtMs = job.endedAtMs := by
  rcases drain_cases stream answer job with h | ⟨_, h⟩ | h <;>
    cases stream <;> rw [h] <;> rfl

@[simp] theorem endedAtMs_closeRemaining (stream : Stream) (job : Job) :
    (job.closeRemaining stream).value.endedAtMs = job.endedAtMs := by
  unfold closeRemaining
  split
  · cases stream <;> rfl
  · rfl

theorem endedAtMs_conclude (nowMs : UInt64) (answers : ScanAnswers)
    (job : Job) (outcome : ScanOutcome) :
    (job.conclude nowMs answers outcome).value.endedAtMs =
      outcome.endedAtMs nowMs answers.now job.endedAtMs := by
  cases outcome with
  | reaped status => simp [conclude, reap, finish, ScanOutcome.endedAtMs]
  | expired | overCap => rfl
  | truncated =>
      simp only [conclude, Traced.value_pure, enforceJobLogCap]
      split <;> rfl
  | kept => rfl

theorem endedAtMs_scan (nowMs : UInt64) (answers : ScanAnswers) (job : Job) :
    (job.scan nowMs answers).value.endedAtMs =
      ((job.drainBoth answers).value.scanOutcome nowMs answers).endedAtMs
        nowMs answers.now job.endedAtMs := by
  rw [value_scan, endedAtMs_conclude]
  simp [drainBoth]

theorem endedAtMs_start (nowMs : UInt64) (answer : SpawnAnswer) (job : Job) :
    (job.start nowMs answer).value.endedAtMs = job.endedAtMs := by
  cases answer <;> rfl

theorem collected?_drainBoth (answers : ScanAnswers) (job : Job) :
    (job.drainBoth answers).value.collected? answers =
      job.collected? answers := by
  simp [collected?]

theorem scanOutcome_of_collected {nowMs : UInt64} {answers : ScanAnswers}
    {job : Job} {status : WaitStatus}
    (h : job.collected? answers = some status) :
    (job.drainBoth answers).value.scanOutcome nowMs answers =
      .reaped status := by
  rw [scanOutcome, collected?_drainBoth, h]

/-- A scan ends a running job at the time of the tick, unless it collects the
leader while the system clock shows another time. -/
theorem endedAtMs_scan_of_isTerminal {nowMs : UInt64} {answers : ScanAnswers}
    {job : Job} (hrunning : job.status = .running)
    (hclock : (job.collected? answers).isSome → answers.now.toMs = nowMs)
    (hended : (job.scan nowMs answers).value.status.isTerminal = true) :
    (job.scan nowMs answers).value.endedAtMs = nowMs := by
  rw [endedAtMs_scan]
  rw [status_scan, hrunning] at hended
  cases hend : (job.drainBoth answers).value.scanOutcome nowMs answers with
  | reaped status =>
      apply hclock
      rw [← collected?_drainBoth]
      unfold scanOutcome at hend
      split at hend
      · rename_i hcollected
        simp [hcollected]
      · split_ifs at hend
  | expired | overCap => rfl
  | truncated | kept =>
      rw [hend] at hended
      contradiction

end Job

namespace JobRunner

/-- The environment lets a tick stamp every end with its own time: no spawn
fails, unless that time is the zero a job starts out with, and the system clock
agrees with it when a leader is collected. -/
structure ClockAgrees (t : Tick) (r : JobRunner) : Prop where
  spawns : ∀ id ∈ r.startedJobs t, succeeds t id = false → t.nowMs = 0
  reaps : ∀ job ∈ (r.startPhase t).value.jobs, job.id ∈ r.scannedJobs t →
    (job.collected? (t.scan job.id)).isSome →
      (t.scan job.id).now.toMs = t.nowMs

/-- Every job that ends inside the tick ends at the time of the tick. -/
def EndsAtTickTime (t : Tick) (r : JobRunner) : Prop :=
  ∀ job ∈ r.jobs, ∀ job' ∈ (r.tick t).value.jobs, job'.id = job.id →
    job.status.isTerminal = false → job'.status.isTerminal = true →
      job'.endedAtMs = t.nowMs

/-- As long as nothing is cancelled, what waits in the queue is as it was
submitted. -/
structure Untouched (r : JobRunner) : Prop where
  wellFormed : r.WellFormed
  queued : ∀ job ∈ r.jobs, job.id ∈ r.jobQueue → job.status = .queued
  open_ended : ∀ job ∈ r.jobs, job.id ∈ r.jobQueue → job.endedAtMs = 0

namespace Untouched

variable {r : JobRunner} (h : r.Untouched) (t : Tick)

include h

/-- A job that is still waiting after a tick has been left alone by it. -/
theorem tick : (r.tick t).value.Untouched := by
  have hold : ∀ job' ∈ (r.tick t).value.jobs,
      job'.id ∈ (r.tick t).value.jobQueue →
        job' ∈ r.jobs ∧ job'.id ∈ r.jobQueue := by
    intro job' hjob' hqueue
    rw [h.wellFormed.jobs_tick t] at hjob'
    obtain ⟨job, hjob, rfl⟩ := List.mem_map.mp hjob'
    rw [Job.id_run] at hqueue ⊢
    rw [WellFormed.jobQueue_tick t] at hqueue
    rw [h.wellFormed.tickActions_eq_nil_of_waiting t hjob hqueue]
    refine ⟨hjob, ?_⟩
    rw [← startedJobs_append_jobQueue t r]
    exact List.mem_append_right _ hqueue
  refine ⟨h.wellFormed.tick_wellFormed t, ?_, ?_⟩
  · intro job' hjob' hqueue
    obtain ⟨hjob, hwaiting⟩ := hold job' hjob' hqueue
    exact h.queued job' hjob hwaiting
  · intro job' hjob' hqueue
    obtain ⟨hjob, hwaiting⟩ := hold job' hjob' hqueue
    exact h.open_ended job' hjob hwaiting

theorem submitJob (command : String) (limits : JobLimits) (now : SystemTime)
    (layout : Layout) :
    (r.submitJob command limits now layout).value.2.Untouched := by
  refine ⟨h.wellFormed.submitJob_wellFormed command limits now layout, ?_, ?_⟩
  · intro job hjob hqueue
    rcases h.wellFormed.waiting_submitJob hjob hqueue with
      ⟨hold, hwaiting⟩ | rfl
    · exact h.queued job hold hwaiting
    · rfl
  · intro job hjob hqueue
    rcases h.wellFormed.waiting_submitJob hjob hqueue with
      ⟨hold, hwaiting⟩ | rfl
    · exact h.open_ended job hold hwaiting
    · rfl

theorem status_of_mem_startedJobs {job : Job} (hjob : job ∈ r.jobs)
    (hstart : job.id ∈ r.startedJobs t) :
    job.status = .queued ∧ job.endedAtMs = 0 :=
  ⟨h.queued job hjob (startedJobs_subset t r hstart),
    h.open_ended job hjob (startedJobs_subset t r hstart)⟩

section Stamps

variable (hends : r.EndsAtTickTime t)

include hends

theorem endedAtMs_of_ends {job : Job} (hjob : job ∈ r.jobs)
    (hopen : job.status.isTerminal = false)
    (hended : (jobMachine.run job
      (r.tickActions t job.id)).value.status.isTerminal = true) :
    (jobMachine.run job (r.tickActions t job.id)).value.endedAtMs =
      t.nowMs := by
  refine hends job hjob _ ?_ (Job.id_run _ _) hopen hended
  rw [h.wellFormed.jobs_tick t]
  exact List.mem_map_of_mem hjob

/-- A job whose spawn fails is not scanned, and keeps the zero. -/
theorem nowMs_of_failed_spawn {id : String} (hstart : id ∈ r.startedJobs t)
    (hfailed : succeeds t id = false) : t.nowMs = 0 := by
  obtain ⟨job, hjob, rfl⟩ := List.mem_map.mp
    (h.wellFormed.queue_known (startedJobs_subset t r hstart))
  obtain ⟨hqueued, hzero⟩ := h.status_of_mem_startedJobs t hjob hstart
  have hstatus : (r.afterStart t job).status = .failed := by
    rw [afterStart, if_pos hstart, startJob, Job.status_start]
    simpa [succeeds] using hfailed
  have hscan : job.id ∉ r.scannedJobs t := by
    intro hscan
    have hrunning := h.wellFormed.running_of_mem_scannedJobs t hjob hscan
    rw [← afterStart, hstatus] at hrunning
    exact absurd hrunning (by decide)
  have hstamp := h.endedAtMs_of_ends t hends hjob (by rw [hqueued]; rfl)
  simp only [value_run_tickActions, if_neg hscan] at hstamp
  have hnow := hstamp (by rw [hstatus]; rfl)
  rw [afterStart, if_pos hstart, startJob, Job.endedAtMs_start, hzero] at hnow
  exact hnow.symm

/-- A job whose leader is collected was open before the tick. -/
theorem toMs_of_collected {job : Job} (hjob : job ∈ r.jobs)
    (hscan : job.id ∈ r.scannedJobs t)
    (hcollected : ((r.afterStart t job).collected? (t.scan job.id)).isSome) :
    (t.scan job.id).now.toMs = t.nowMs := by
  have hrunning : (r.afterStart t job).status = .running :=
    h.wellFormed.running_of_mem_scannedJobs t hjob hscan
  obtain ⟨status, hstatus⟩ := Option.isSome_iff_exists.mp hcollected
  have hreaped : ((r.afterStart t job).drainBoth
      (t.scan job.id)).value.scanOutcome t.nowMs (t.scan job.id) =
        .reaped status :=
    Job.scanOutcome_of_collected hstatus
  have hopen : job.status.isTerminal = false := by
    by_cases hstart : job.id ∈ r.startedJobs t
    · rw [(h.status_of_mem_startedJobs t hjob hstart).1]
      rfl
    · rw [afterStart, if_neg hstart] at hrunning
      rw [hrunning]
      rfl
  have hstamp := h.endedAtMs_of_ends t hends hjob hopen
  simp only [value_run_tickActions, if_pos hscan, Job.status_scan,
    Job.endedAtMs_scan, hreaped, ScanOutcome.endedAtMs,
    ScanOutcome.status] at hstamp
  apply hstamp
  split <;> rfl

end Stamps

theorem endsAtTickTime_of_clockAgrees (hclock : r.ClockAgrees t) :
    r.EndsAtTickTime t := by
  intro job hjob job' hjob' hid hopen hended
  rw [h.wellFormed.jobs_tick t] at hjob'
  obtain ⟨source, hsource, rfl⟩ := List.mem_map.mp hjob'
  rw [Job.id_run] at hid
  obtain rfl := Keyed.eq_of_key_eq h.wellFormed.ids_nodup hsource hjob hid
  rw [value_run_tickActions] at hended ⊢
  by_cases hscan : source.id ∈ r.scannedJobs t
  · rw [if_pos hscan] at hended ⊢
    have hreap := hclock.reaps (r.afterStart t source)
      ((h.wellFormed.mem_startPhase_iff t _).mpr ⟨source, hsource, rfl⟩)
    rw [id_afterStart] at hreap
    exact Job.endedAtMs_scan_of_isTerminal
      (h.wellFormed.running_of_mem_scannedJobs t hsource hscan)
      (hreap hscan) hended
  · rw [if_neg hscan] at hended ⊢
    by_cases hstart : source.id ∈ r.startedJobs t
    · obtain ⟨_, hzero⟩ := h.status_of_mem_startedJobs t hsource hstart
      rw [afterStart, if_pos hstart, startJob] at hended ⊢
      rw [Job.endedAtMs_start, hzero]
      refine (hclock.spawns source.id hstart ?_).symm
      rw [Job.status_start] at hended
      cases hok : (t.spawn source.id).succeeded with
      | false => exact hok
      | true => simp [hok, JobStatus.isTerminal] at hended
    · rw [afterStart, if_neg hstart, hopen] at hended
      contradiction

/-- A tick stamps all ends with its own time exactly if the clock agrees. -/
theorem endsAtTickTime_iff : r.EndsAtTickTime t ↔ r.ClockAgrees t := by
  refine ⟨fun hends => ⟨fun id hstart hfailed =>
    h.nowMs_of_failed_spawn t hends hstart hfailed, ?_⟩,
    h.endsAtTickTime_of_clockAgrees t⟩
  intro started hstarted hscan hcollected
  obtain ⟨job, hjob, rfl⟩ :=
    (h.wellFormed.mem_startPhase_iff t started).mp hstarted
  rw [id_afterStart] at hscan hcollected ⊢
  exact h.toMs_of_collected t hends hjob hscan hcollected

end Untouched

end JobRunner

end HeidiKernel
