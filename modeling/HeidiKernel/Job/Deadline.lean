import HeidiKernel.Job.Fairness
import HeidiKernel.Job.ProcessCap
import HeidiKernel.Job.ScanOrder
import HeidiKernel.Job.Timeout

namespace HeidiKernel

open HeidiKernel.Data
open HeidiKernel.Transition

/-! No job outlives its limits for long. A full scan leaves only jobs within
them, and under any budget a job that is beyond them ends after some laps. -/

namespace Job

/-- The leader of the job has not exited and its time is not up. -/
structure MayRunOn (nowMs : UInt64) (answers : ScanAnswers) (job : Job) :
    Prop where
  uncollected : job.collected? answers = none
  inTime : job.timedOut nowMs = false

instance (nowMs : UInt64) (answers : ScanAnswers) (job : Job) :
    Decidable (job.MayRunOn nowMs answers) :=
  decidable_of_iff (job.collected? answers = none ∧ job.timedOut nowMs = false)
    ⟨fun h => ⟨h.1, h.2⟩, fun h => ⟨h.1, h.2⟩⟩

section Survivor

variable {nowMs : UInt64} {answers : ScanAnswers} {job : Job}
  (hactive : (job.scan nowMs answers).value.isActive = true)

include hactive

theorem uncollected_of_isActive_scan : job.collected? answers = none := by
  have houtcome := status_scan nowMs answers job
  rw [scanOutcome, collected?_drainBoth] at houtcome
  cases hcollected : job.collected? answers with
  | none => rfl
  | some status =>
      rw [hcollected] at houtcome
      dsimp only [ScanOutcome.status] at houtcome
      split at houtcome <;> simp [isActive, houtcome] at hactive

theorem mayRunOn_of_isActive_scan : job.MayRunOn nowMs answers := by
  have hcollected := uncollected_of_isActive_scan hactive
  refine ⟨hcollected, ?_⟩
  have houtcome := status_scan nowMs answers job
  rw [scanOutcome, collected?_drainBoth, timedOut_drainBoth, hcollected]
    at houtcome
  cases htime : job.timedOut nowMs with
  | false => rfl
  | true =>
      simp only [htime, if_true, ScanOutcome.status] at houtcome
      simp [isActive, houtcome] at hactive

theorem status_of_isActive_scan :
    (job.scan nowMs answers).value.status =
      (if job.maxLogBytes < job.logAfterReads answers then .truncated
        else if job.exceedsProcessCap answers then .overCap
        else .kept : ScanOutcome).status job.status := by
  obtain ⟨hcollected, htime⟩ := mayRunOn_of_isActive_scan hactive
  rw [status_scan, scanOutcome_drainBoth hcollected htime]

theorem withinCap_of_isActive_scan
    (hlog : job.logAfterReads answers ≤ job.maxLogBytes) :
    job.exceedsProcessCap answers = false := by
  have houtcome := status_of_isActive_scan hactive
  rw [if_neg (Nat.not_lt.mpr hlog)] at houtcome
  cases hcap : job.exceedsProcessCap answers with
  | false => rfl
  | true =>
      simp only [hcap, if_true, ScanOutcome.status] at houtcome
      simp [isActive, houtcome] at hactive

theorem logSize_of_isActive_scan (hrunning : job.status = .running) :
    (job.scan nowMs answers).value.logSize ≤
      (job.scan nowMs answers).value.maxLogBytes := by
  refine logSize_scan_le ?_
  have houtcome := status_of_isActive_scan hactive
  split_ifs at houtcome with hlog hcap
  · exact houtcome.trans hrunning
  · simp [isActive, houtcome, ScanOutcome.status] at hactive
  · exact houtcome.trans hrunning

end Survivor

end Job

namespace JobRunner

/-- A job is as its limits allow: its leader runs and its time is not up, its
log is within its cap, and so are its processes, unless its log was cut. -/
structure WithinLimits (t : Tick) (job after : Job) : Prop where
  scanned : after = (job.scan t.nowMs (t.scan job.id)).value
  mayRunOn : job.MayRunOn t.nowMs (t.scan job.id)
  log : after.logSize ≤ after.maxLogBytes
  processes : job.logAfterReads (t.scan job.id) ≤ job.maxLogBytes →
    job.exceedsProcessCap (t.scan job.id) = false

theorem WellFormed.withinLimits_tick {r : JobRunner} (h : r.WellFormed)
    {t : Tick}
    (hfull : (r.startPhase t).value.runningCount ≤ t.maxLimitScansPerTick)
    {after : Job} (hafter : after ∈ (r.tick t).value.jobs)
    (hactive : after.isActive = true) :
    ∃ job ∈ (r.startPhase t).value.jobs, WithinLimits t job after := by
  have hids := h.ids_startPhase_nodup t
  rw [value_tick, jobs_fullScan hids hfull] at hafter
  obtain ⟨job, hjob, rfl⟩ := List.mem_map.mp hafter
  have hscan : job.isActive = true := by
    by_contra hidle
    rw [if_neg hidle] at hactive
    exact hidle hactive
  have hselected := (mem_selectedJobs_iff_isActive hids hfull hjob).mpr hscan
  rw [if_pos hscan, scanJob] at hactive ⊢
  refine ⟨job, hjob, rfl, Job.mayRunOn_of_isActive_scan hactive, ?_,
    Job.withinCap_of_isActive_scan hactive⟩
  apply Job.logSize_of_isActive_scan hactive
  obtain ⟨source, hsource, rfl⟩ := (h.mem_startPhase_iff t job).mp hjob
  rw [id_afterStart] at hselected
  exact h.running_of_mem_scannedJobs t hsource hselected

theorem not_running_of_scanned {r : JobRunner}
    (hids : (r.jobs.map Job.id).Nodup) {k : Nat} {nowMs : UInt64}
    {scan : String → ScanAnswers} {job : Job} (hjob : job ∈ r.jobs)
    (hselected : job.id ∈ r.selectedJobs k)
    (hover : ¬job.MayRunOn nowMs (scan job.id)) :
    job.id ∉ (r.checkJobLimits nowMs k scan).value.runningJobs := by
  intro hstill
  obtain ⟨after, hafter, hactive, hid⟩ := (mem_runningJobs _).mp hstill
  have hkeys : ((r.checkJobLimits nowMs k scan).value.jobs.map
      Job.id).Nodup := by
    rwa [jobs_checkJobLimits, Keyed.keys_modifyAll (scanJob_id nowMs scan)
      (selectedJobs_nodup k r hids) hids]
  have hfound := Keyed.lookup?_of_mem hkeys hafter
  have hscanned := getJobStatus_checkJobLimits hids hjob hselected nowMs scan
  rw [hid] at hfound
  obtain rfl := Option.some.inj (hfound.symm.trans hscanned)
  exact hover (Job.mayRunOn_of_isActive_scan hactive)

/-- A tick starts no more jobs than there is room for. -/
theorem runningCount_runJobs_le (maxConcurrentJobs : Nat) (ops : List Op) :
    (runJobs maxConcurrentJobs ops).value.runningCount ≤
      (runJobs maxConcurrentJobs ops).value.maxConcurrent := by
  refine (Machine.invariant_run (m := runnerMachine)
    (I := fun r => r.WellFormed ∧ r.runningCount ≤ r.maxConcurrent)
    (fun r op hI => ⟨hI.1.apply_wellFormed op, ?_⟩)
    ⟨create_wellFormed maxConcurrentJobs, by simp [create, runningCount]⟩
    ops).2
  change (r.apply op).value.runningCount ≤ (r.apply op).value.maxConcurrent
  rw [(frame_apply op r).1]
  refine (hI.1.runningCount_apply_le op).trans ?_
  have hle := hI.2
  cases op with
  | tick t =>
      have hroom := successes_le t r
      dsimp only
      omega
  | submit command limits now layout => exact hle
  | cancel id answers => exact hle

end JobRunner

/-- In every run, a tick that may scan as many jobs as may run at once leaves
only jobs running that are within their limits. -/
theorem survivors_withinLimits (maxConcurrentJobs : Nat) (ops : List Op)
    {t : Tick} (hbudget : maxConcurrentJobs ≤ t.maxLimitScansPerTick) :
    let r := (runJobs maxConcurrentJobs ops).value
    ∀ after ∈ (r.tick t).value.jobs, after.isActive = true →
      ∃ job ∈ (r.startPhase t).value.jobs,
        JobRunner.WithinLimits t job after := by
  intro r after
  have h : r.WellFormed := runJobs_wellFormed maxConcurrentJobs ops
  apply h.withinLimits_tick
  have hcap := JobRunner.runningCount_runJobs_le maxConcurrentJobs ops
  have hmax : r.maxConcurrent = maxConcurrentJobs :=
    (JobRunner.runJobs_frame maxConcurrentJobs ops).1
  change r.runningCount ≤ r.maxConcurrent at hcap
  have hstart := h.runningCount_startPhase_le t
  have hroom := JobRunner.successes_le t r
  omega

theorem plain_withinLimits :
    let r := (runJobs 10 [JobRunner.plainSubmit]).value
    ∀ after ∈ (r.tick JobRunner.plainTick).value.jobs, after.isActive = true →
      ∃ job ∈ (r.startPhase JobRunner.plainTick).value.jobs,
        JobRunner.WithinLimits JobRunner.plainTick job after :=
  survivors_withinLimits 10 [JobRunner.plainSubmit] (by decide)

/-- Under a budget of any size, a job that is found beyond its time at every
call, or found to have exited, is no longer running after one lap for each job
that was running at first and one more. -/
theorem overdue_ends {k m : Nat} {runner : Nat → JobRunner}
    {nowMs : Nat → UInt64} {scan : Nat → String → ScanAnswers} (hk : 1 ≤ k)
    (h : ScanRounds k m runner nowMs scan) {id : String}
    (hover : ∀ j < m, ∀ job ∈ (runner j).jobs, job.id = id →
      ¬job.MayRunOn (nowMs j) (scan j id))
    (hm : ((runner 0).runningJobs.length + 1) *
      ((runner 0).runningJobs.length ⌈/⌉ k) ≤ m) :
    id ∉ (runner m).runningJobs := by
  intro hlast
  have hstays : ∀ j ≤ m, id ∈ (runner j).runningJobs := fun j hj =>
    (h.rounds.sublist hj (le_refl m)).subset hlast
  have hdeparted : ((runner 0).departedJobs (runner m)).length ≤
      (runner 0).runningJobs.length := List.length_filter_le _ _
  have hlaps := Nat.mul_le_mul_right ((runner 0).runningJobs.length ⌈/⌉ k)
    (Nat.succ_le_succ hdeparted)
  obtain ⟨j, hj, hselected⟩ := h.rounds.visits hk hstays
    h.length_departedJobs (hlaps.trans hm)
  have hj : j < m := hj.trans_le (hlaps.trans hm)
  obtain ⟨job, hjob, _, rfl⟩ :=
    (JobRunner.mem_runningJobs _).mp (hstays j hj.le)
  have hended := JobRunner.not_running_of_scanned (h.nodup hj.le) hjob
    hselected (hover j hj job hjob rfl)
  exact hended ((h.departs j hj).running.subset (hstays (j + 1) hj))

def lateScans : Nat → JobRunner
  | 0 => (runJobs 10 [JobRunner.plainSubmit, .tick JobRunner.plainTick]).value
  | j + 1 => ((lateScans j).checkJobLimits (2 ^ 40) 1 fun _ => {}).value

theorem late_job_ends : "job_1" ∉ (lateScans 2).runningJobs := by
  have hrounds : ScanRounds 1 2 lateScans (fun _ => 2 ^ 40) fun _ _ => {} := by
    refine ⟨by decide +kernel, fun j hj => ⟨?_, List.Sublist.refl _, rfl⟩⟩
    have hnodup : ∀ j < 2, ((lateScans (j + 1)).jobs.map Job.id).Nodup := by
      decide +kernel
    exact hnodup j hj
  exact overdue_ends (le_refl 1) hrounds (by decide +kernel) (by decide +kernel)

end HeidiKernel
