import HeidiKernel.Job.Lifecycle
import HeidiKernel.Job.Timestamp

namespace HeidiKernel

open HeidiKernel.Transition
open HeidiKernel.Data

/-! When a scan ends a job by a timeout. The runtime is a difference modulo
`2 ^ 64`, so a clock behind the start of the job makes it enormous. -/

namespace Job

/-- The job has been running for longer than it may. -/
def OutOfTime (nowMs : UInt64) (job : Job) : Prop :=
  job.startedAtMs.toNat ≤ nowMs.toNat ∧
    job.maxRuntimeMs.toNat < nowMs.toNat - job.startedAtMs.toNat

/-- The clock is not behind the start of the job, or the limit is beyond what
the difference wraps around to. -/
def NeverWraps (nowMs : UInt64) (job : Job) : Prop :=
  nowMs.toNat < job.startedAtMs.toNat →
    nowMs.toNat + 2 ^ 64 - job.startedAtMs.toNat ≤ job.maxRuntimeMs.toNat

instance (nowMs : UInt64) (job : Job) : Decidable (job.OutOfTime nowMs) :=
  inferInstanceAs (Decidable (_ ∧ _))

theorem timedOut_eq_true_iff {nowMs : UInt64} {job : Job} :
    job.timedOut nowMs = true ↔ job.OutOfTime nowMs ∨
      ¬job.NeverWraps nowMs := by
  have hnow := nowMs.toNat_lt
  have hstart := job.startedAtMs.toNat_lt
  simp only [timedOut, decide_eq_true_eq, gt_iff_lt, UInt64.lt_iff_toNat_lt,
    UInt64.toNat_sub, OutOfTime, NeverWraps]
  omega

/-- The comparison is the one of the natural numbers exactly if the difference
does not wrap around. -/
theorem timedOut_exact_iff {nowMs : UInt64} {job : Job} :
    (job.timedOut nowMs = true ↔ job.OutOfTime nowMs) ↔
      job.NeverWraps nowMs := by
  rw [timedOut_eq_true_iff]
  constructor
  · intro h
    by_contra hwraps
    have hout := h.mp (.inr hwraps)
    exact hwraps fun hbehind => absurd hout.1 (Nat.not_le.mpr hbehind)
  · intro hnever
    exact ⟨fun h => h.resolve_right (not_not_intro hnever), .inl⟩

theorem timedOut_drain (nowMs : UInt64) (stream : Stream)
    (answer : Option Bytes) (job : Job) :
    (job.drain stream answer).value.timedOut nowMs = job.timedOut nowMs := by
  rcases drain_cases stream answer job with h | ⟨_, h⟩ | h <;>
    cases stream <;> rw [h] <;> rfl

theorem timedOut_drainBoth (nowMs : UInt64) (answers : ScanAnswers)
    (job : Job) :
    (job.drainBoth answers).value.timedOut nowMs = job.timedOut nowMs := by
  simp only [drainBoth, Traced.value_bind, timedOut_drain]

/-- The timeout is the first enforcer, so nothing but a reap comes before
it. -/
theorem status_scan_eq_timeout_iff {nowMs : UInt64} {answers : ScanAnswers}
    {job : Job} (hactive : job.isActive = true)
    (hkept : job.collected? answers = none) :
    (job.scan nowMs answers).value.status = .timeout ↔
      job.timedOut nowMs = true := by
  have hstatus : job.status ≠ .timeout := by
    intro htimeout
    simp [isActive, htimeout] at hactive
  rw [status_scan, scanOutcome, collected?_drainBoth, hkept,
    timedOut_drainBoth]
  split_ifs with htime hlog hcap
  · simp [htime, ScanOutcome.status]
  · simpa [htime, ScanOutcome.status] using hstatus
  · simp [htime, ScanOutcome.status]
  · simpa [htime, ScanOutcome.status] using hstatus

end Job

namespace JobRunner

/-- Of the jobs that are scanned and not reaped between the two states, exactly
those out of time have become TIMEOUT. -/
def TimesOutExactly (nowMs : UInt64) (maxJobsToCheck : Nat)
    (scan : String → ScanAnswers) (before after : JobRunner) : Prop :=
  ∀ job ∈ before.jobs, job.id ∈ before.selectedJobs maxJobsToCheck →
    job.collected? (scan job.id) = none →
      (after.statusOf job.id = some .timeout ↔ job.OutOfTime nowMs)

instance (nowMs : UInt64) (k : Nat) (scan : String → ScanAnswers)
    (before after : JobRunner) :
    Decidable (TimesOutExactly nowMs k scan before after) :=
  inferInstanceAs (Decidable (∀ job ∈ before.jobs, _ → _ → (_ ↔ _)))

/-- No scanned job that is not reaped has a start ahead of the clock. -/
def ClockNotBehind (nowMs : UInt64) (maxJobsToCheck : Nat)
    (scan : String → ScanAnswers) (r : JobRunner) : Prop :=
  ∀ job ∈ r.jobs, job.id ∈ r.selectedJobs maxJobsToCheck →
    job.collected? (scan job.id) = none → job.NeverWraps nowMs

/-- A check is exact if and only if the clock is not behind. -/
theorem timesOutExactly_checkJobLimits_iff {r : JobRunner}
    (hids : (r.jobs.map Job.id).Nodup) (nowMs : UInt64) (k : Nat)
    (scan : String → ScanAnswers) :
    TimesOutExactly nowMs k scan r (r.checkJobLimits nowMs k scan).value ↔
      r.ClockNotBehind nowMs k scan := by
  unfold TimesOutExactly ClockNotBehind
  refine forall₂_congr fun job hjob => forall₂_congr fun hselected hkept => ?_
  have hactive := isActive_of_mem_selectedJobs hids hjob hselected
  rw [statusOf, getJobStatus_checkJobLimits hids hjob hselected,
    Option.map_some, Option.some.injEq,
    Job.status_scan_eq_timeout_iff hactive hkept]
  exact Job.timedOut_exact_iff

/-- The jobs that were running before the tick have not started after it. What
the tick itself starts has a runtime of zero. -/
def TickNotBehind (t : Tick) (r : JobRunner) : Prop :=
  ∀ job ∈ r.jobs, job.isActive = true → job.id ∈ r.scannedJobs t →
    job.collected? (t.scan job.id) = none → job.NeverWraps t.nowMs

theorem startedAtMs_start {nowMs : UInt64} {answer : SpawnAnswer} {job : Job}
    (hok : answer.succeeded = true) :
    (job.start nowMs answer).value.startedAtMs = nowMs := by
  cases answer with
  | spawned => rfl
  | failed => contradiction

theorem WellFormed.clockNotBehind_startPhase_iff {r : JobRunner}
    (h : r.WellFormed) (t : Tick) :
    (r.startPhase t).value.ClockNotBehind t.nowMs t.maxLimitScansPerTick
        t.scan ↔
      r.TickNotBehind t := by
  constructor
  · intro hclock job hjob hactive hscan hkept
    have hstart : job.id ∉ r.startedJobs t := by
      intro hstart
      rcases h.waiting job hjob (startedJobs_subset t r hstart) with
        hstatus | hstatus <;> simp [Job.isActive, hstatus] at hactive
    have hsame : r.afterStart t job = job := if_neg hstart
    exact hclock job
      ((h.mem_startPhase_iff t job).mpr ⟨job, hjob, hsame⟩) hscan hkept
  · intro htick started hstarted hscan hkept
    obtain ⟨job, hjob, rfl⟩ := (h.mem_startPhase_iff t started).mp hstarted
    rw [id_afterStart] at hscan hkept
    have hrunning : (r.afterStart t job).status = .running :=
      h.running_of_mem_scannedJobs t hjob hscan
    by_cases hstart : job.id ∈ r.startedJobs t
    · rw [afterStart, if_pos hstart, startJob] at hrunning ⊢
      have hok : (t.spawn job.id).succeeded = true := by
        rw [Job.status_start] at hrunning
        by_contra hfailed
        simp [hfailed] at hrunning
      intro hbehind
      rw [startedAtMs_start hok] at hbehind
      exact absurd hbehind (Nat.lt_irrefl _)
    · rw [afterStart, if_neg hstart] at hrunning hkept ⊢
      exact htick job hjob (by simp [Job.isActive, hrunning]) hscan hkept

/-- The check of a tick is exact if and only if the tick is not behind. -/
theorem WellFormed.timesOutExactly_tick_iff {r : JobRunner}
    (h : r.WellFormed) (t : Tick) :
    TimesOutExactly t.nowMs t.maxLimitScansPerTick t.scan
        (r.startPhase t).value (r.tick t).value ↔
      r.TickNotBehind t := by
  rw [← h.clockNotBehind_startPhase_iff t, value_tick]
  exact timesOutExactly_checkJobLimits_iff (h.ids_startPhase_nodup t) t.nowMs
    t.maxLimitScansPerTick t.scan

end JobRunner

end HeidiKernel
