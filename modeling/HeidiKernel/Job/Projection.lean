import HeidiKernel.Data.Budget
import HeidiKernel.Data.RoundRobin
import HeidiKernel.Job.Runner
import HeidiKernel.Job.Identity

namespace HeidiKernel

open HeidiKernel.Transition
open HeidiKernel.Data

/-! The runner as the sum of its jobs. Every call on the runner performs a list
of actions on each job, and nothing else happens to the table. -/

namespace JobRunner

def startBudget (t : Tick) (r : JobRunner) : Nat :=
  min t.maxStartsPerTick (r.maxConcurrent - r.runningCount)

def succeeds (t : Tick) (id : String) : Bool := (t.spawn id).succeeded

def Admits (t : Tick) (r : JobRunner) : Prop :=
  (r.admission t.metrics).decision = .startNow

instance (t : Tick) (r : JobRunner) : Decidable (r.Admits t) :=
  inferInstanceAs (Decidable (_ = _))

def startedJobs (t : Tick) (r : JobRunner) : List String :=
  if r.Admits t then
    r.jobQueue.take (servedCount (succeeds t) (r.startBudget t) r.jobQueue)
  else
    []

def scannedJobs (t : Tick) (r : JobRunner) : List String :=
  (r.startPhase t).value.selectedJobs t.maxLimitScansPerTick

theorem startLoop_eq (t : Tick) (maxConcurrent running : Nat)
    (queue : List String) (started : Nat) (jobs : List Job) :
    let served := servedCount (succeeds t)
      (min t.maxStartsPerTick (maxConcurrent - running) - started) queue
    startLoop t maxConcurrent running queue started jobs =
      (fun jobs => (queue.drop served,
        started + (queue.take served).countP (succeeds t), jobs)) <$>
          Keyed.modifyAll Job.id (startJob t) (queue.take served) jobs := by
  induction queue generalizing started jobs with
  | nil => rfl
  | cons id queue ih =>
      simp only [startLoop]
      by_cases hopen : started < t.maxStartsPerTick ∧
          running + started < maxConcurrent
      · have hbudget :
            0 < min t.maxStartsPerTick (maxConcurrent - running) - started := by
          omega
        rw [if_pos hopen, servedCount_cons_of_pos _ hbudget]
        simp only [List.drop_succ_cons, List.take_succ_cons,
          Keyed.modifyAll, List.countP_cons]
        by_cases hspawn : (t.spawn id).succeeded = true
        · have hnext :
              min t.maxStartsPerTick (maxConcurrent - running) - started - 1 =
                min t.maxStartsPerTick (maxConcurrent - running) -
                  (started + 1) := by
            omega
          ext1 <;>
            simp [hspawn, succeeds, hnext, ih, Nat.add_assoc, Nat.add_comm 1]
        · ext1 <;> simp [hspawn, succeeds, ih]
      · have hbudget :
            min t.maxStartsPerTick (maxConcurrent - running) - started = 0 := by
          omega
        rw [if_neg hopen, hbudget, servedCount_zero]
        rfl

theorem startPhase_of_admits {t : Tick} {r : JobRunner} (h : r.Admits t) :
    let served := servedCount (succeeds t) (r.startBudget t) r.jobQueue
    (r.startPhase t).value.jobs =
        (Keyed.modifyAll Job.id (startJob t) (r.jobQueue.take served)
          r.jobs).value ∧
      (r.startPhase t).value.jobQueue = r.jobQueue.drop served ∧
      (r.startPhase t).events =
        (Keyed.modifyAll Job.id (startJob t) (r.jobQueue.take served)
          r.jobs).events := by
  have hloop := startLoop_eq t r.maxConcurrent r.runningCount r.jobQueue 0
    r.jobs
  simp only [Nat.sub_zero] at hloop
  simp only [startPhase, if_pos (show _ = _ from h), hloop]
  exact ⟨rfl, rfl, by simp [startBudget]⟩

theorem startPhase_of_not_admits {t : Tick} {r : JobRunner}
    (h : ¬r.Admits t) :
    (r.startPhase t).value.jobs = r.jobs ∧
      (r.startPhase t).value.jobQueue = r.jobQueue ∧
      (r.startPhase t).events = [] := by
  simp only [startPhase, if_neg (show ¬_ = _ from h)]
  exact ⟨rfl, rfl, rfl⟩

theorem jobs_startPhase (t : Tick) (r : JobRunner) :
    (r.startPhase t).value.jobs =
      (Keyed.modifyAll Job.id (startJob t) (r.startedJobs t) r.jobs).value := by
  by_cases h : r.Admits t
  · simp [startedJobs, h, startPhase_of_admits h]
  · simp [startedJobs, h, startPhase_of_not_admits h, Keyed.modifyAll]

theorem events_startPhase (t : Tick) (r : JobRunner) :
    (r.startPhase t).events =
      (Keyed.modifyAll Job.id (startJob t) (r.startedJobs t) r.jobs).events := by
  by_cases h : r.Admits t
  · simp [startedJobs, h, startPhase_of_admits h]
  · simp [startedJobs, h, startPhase_of_not_admits h, Keyed.modifyAll]

/-- What a tick starts comes off the front of the queue. -/
theorem startedJobs_append_jobQueue (t : Tick) (r : JobRunner) :
    r.startedJobs t ++ (r.startPhase t).value.jobQueue = r.jobQueue := by
  by_cases h : r.Admits t
  · simp [startedJobs, h, startPhase_of_admits h]
  · simp [startedJobs, h, startPhase_of_not_admits h]

/-- A job is started if the tick is admitted and the successes in front of it
leave some of the budget. -/
theorem mem_startedJobs_iff {t : Tick} {r : JobRunner} {id : String} :
    id ∈ r.startedJobs t ↔ r.Admits t ∧ ∃ i, r.jobQueue[i]? = some id ∧
      (r.jobQueue.take i).countP (succeeds t) < r.startBudget t := by
  unfold startedJobs
  by_cases hadmits : r.Admits t
  · simp only [hadmits, if_true, true_and, List.mem_take_iff_getElem]
    constructor
    · rintro ⟨i, hi, rfl⟩
      have hserved := (lt_servedCount_iff (succeeds t)).mp
        (Nat.lt_of_lt_of_le hi (Nat.min_le_left _ _))
      exact ⟨i, List.getElem?_eq_getElem hserved.1, hserved.2⟩
    · rintro ⟨i, hget, hcount⟩
      obtain ⟨hlt, rfl⟩ := List.getElem?_eq_some_iff.mp hget
      have hserved := (lt_servedCount_iff (succeeds t)).mpr ⟨hlt, hcount⟩
      exact ⟨i, Nat.lt_min.mpr ⟨hserved, hlt⟩, rfl⟩
  · simp [hadmits]

@[simp] theorem maxConcurrent_startPhase (t : Tick) (r : JobRunner) :
    (r.startPhase t).value.maxConcurrent = r.maxConcurrent := by
  by_cases h : (r.admission t.metrics).decision = .startNow <;>
    simp [startPhase, diagnose, h]

@[simp] theorem governor_startPhase (t : Tick) (r : JobRunner) :
    (r.startPhase t).value.governor = r.governor := by
  by_cases h : (r.admission t.metrics).decision = .startNow <;>
    simp [startPhase, diagnose, h]

@[simp] theorem jobCounter_startPhase (t : Tick) (r : JobRunner) :
    (r.startPhase t).value.jobCounter = r.jobCounter := by
  by_cases h : (r.admission t.metrics).decision = .startNow <;>
    simp [startPhase, diagnose, h]

@[simp] theorem scanCursor_startPhase (t : Tick) (r : JobRunner) :
    (r.startPhase t).value.scanCursor = r.scanCursor := by
  by_cases h : (r.admission t.metrics).decision = .startNow <;>
    simp [startPhase, diagnose, h]

section Scan

variable (nowMs : UInt64) (maxJobsToCheck : Nat)
  (scan : String → ScanAnswers) (r : JobRunner)

theorem selectedJobs_eq_window :
    r.selectedJobs maxJobsToCheck =
      RoundRobin.window maxJobsToCheck r.scanCursor r.runningJobs := rfl

theorem selectedJobs_eq_nil (h : r.runningJobs.length = 0) :
    r.selectedJobs maxJobsToCheck = [] := by
  simp [selectedJobs, h]

theorem jobs_checkJobLimits :
    (r.checkJobLimits nowMs maxJobsToCheck scan).value.jobs =
      (Keyed.modifyAll Job.id (scanJob nowMs scan)
        (r.selectedJobs maxJobsToCheck) r.jobs).value := by
  unfold checkJobLimits
  by_cases h : r.runningJobs.length = 0
  · simp [h, selectedJobs_eq_nil maxJobsToCheck r h, Keyed.modifyAll]
  · simp [h]

theorem events_checkJobLimits :
    (r.checkJobLimits nowMs maxJobsToCheck scan).events =
      (Keyed.modifyAll Job.id (scanJob nowMs scan)
        (r.selectedJobs maxJobsToCheck) r.jobs).events := by
  unfold checkJobLimits
  by_cases h : r.runningJobs.length = 0
  · simp [h, selectedJobs_eq_nil maxJobsToCheck r h, Keyed.modifyAll]
  · simp [h]

/-- A scan only writes the jobs, its cursor and its counter. -/
theorem checkJobLimits_frame :
    let r' := (r.checkJobLimits nowMs maxJobsToCheck scan).value
    r'.maxConcurrent = r.maxConcurrent ∧ r'.governor = r.governor ∧
      r'.jobCounter = r.jobCounter ∧ r'.jobQueue = r.jobQueue := by
  unfold checkJobLimits
  by_cases h : r.runningJobs.length = 0 <;> simp [h]

theorem mem_runningJobs {id : String} :
    id ∈ r.runningJobs ↔ ∃ job ∈ r.jobs, job.isActive ∧ job.id = id := by
  simp [runningJobs, and_assoc]

theorem runningJobs_nodup (hnodup : (r.jobs.map Job.id).Nodup) :
    r.runningJobs.Nodup :=
  hnodup.sublist (List.filter_sublist.map Job.id)

theorem length_runningJobs : r.runningJobs.length = r.runningCount := by
  rw [runningJobs, List.length_map, runningCount,
    List.countP_eq_length_filter]

theorem length_runningJobs_le : r.runningJobs.length ≤ r.jobs.length := by
  rw [length_runningJobs]
  exact List.countP_le_length

theorem selectedJobs_subset :
    r.selectedJobs maxJobsToCheck ⊆ r.runningJobs :=
  RoundRobin.window_subset maxJobsToCheck r.scanCursor r.runningJobs

theorem selectedJobs_nodup (hnodup : (r.jobs.map Job.id).Nodup) :
    (r.selectedJobs maxJobsToCheck).Nodup :=
  RoundRobin.window_nodup maxJobsToCheck r.scanCursor
    (r.runningJobs_nodup hnodup)

end Scan

end JobRunner

end HeidiKernel
