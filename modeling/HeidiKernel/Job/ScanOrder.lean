import HeidiKernel.Job.Fairness

namespace HeidiKernel

open HeidiKernel.Transition
open HeidiKernel.Data

/-! A full scan under two iteration orders of the job table. Its budget covers
all running jobs, so it visits each of them once wherever the cursor stands,
and a visit writes no other job. -/

namespace JobRunner

/-- The same runner with a table that is iterated in another order. -/
def reordered (layout : Layout) (r : JobRunner) : JobRunner :=
  { r with jobs := layout.order r.jobs }

/-- Two runners with the same job behind every id, which continue their rounds
at the same place. -/
structure SameScan (r r' : JobRunner) : Prop where
  jobs : ∀ id, r.getJobStatus id = r'.getJobStatus id
  scanCursor : r.scanCursor = r'.scanCursor
  jobsScannedThisTick : r.jobsScannedThisTick = r'.jobsScannedThisTick

theorem SameScan.symm {r r' : JobRunner} (h : r.SameScan r') :
    r'.SameScan r :=
  ⟨fun id => (h.jobs id).symm, h.scanCursor.symm, h.jobsScannedThisTick.symm⟩

theorem SameScan.trans {first second third : JobRunner}
    (h : first.SameScan second) (h' : second.SameScan third) :
    first.SameScan third :=
  ⟨fun id => (h.jobs id).trans (h'.jobs id),
    h.scanCursor.trans h'.scanCursor,
    h.jobsScannedThisTick.trans h'.jobsScannedThisTick⟩

theorem runningCount_reordered (layout : Layout) (r : JobRunner) :
    (r.reordered layout).runningCount = r.runningCount :=
  (layout.perm r.jobs).countP_eq Job.isActive

theorem ids_reordered_nodup (layout : Layout) {r : JobRunner}
    (hids : (r.jobs.map Job.id).Nodup) :
    ((r.reordered layout).jobs.map Job.id).Nodup :=
  ((layout.perm r.jobs).map Job.id).nodup_iff.mpr hids

section FullScan

variable {r : JobRunner} (hids : (r.jobs.map Job.id).Nodup) {k : Nat}
  (hfull : r.runningCount ≤ k)

include hids hfull

/-- A full scan visits exactly the running jobs. -/
theorem mem_selectedJobs_iff_isActive {job : Job} (hjob : job ∈ r.jobs) :
    job.id ∈ r.selectedJobs k ↔ job.isActive = true := by
  constructor
  · exact isActive_of_mem_selectedJobs hids hjob
  · intro hactive
    have hlength : r.runningJobs.length ≤ k := by
      rwa [length_runningJobs]
    have hperm := RoundRobin.window_perm r.scanCursor
      (r.runningJobs_nodup hids) hlength
    rw [selectedJobs_eq_window, hperm.mem_iff]
    exact (mem_runningJobs r).mpr ⟨job, hjob, hactive, rfl⟩

/-- What a full scan makes of a job does not depend on where it stands. -/
theorem jobs_fullScan (nowMs : UInt64) (scan : String → ScanAnswers) :
    (r.checkJobLimits nowMs k scan).value.jobs = r.jobs.map fun job =>
      if job.isActive then (scanJob nowMs scan job).value else job := by
  rw [jobs_checkJobLimits, Keyed.value_modifyAll (scanJob_id nowMs scan)
    (selectedJobs_nodup k r hids) hids]
  apply List.map_congr_left
  intro job hjob
  simp only [mem_selectedJobs_iff_isActive hids hfull hjob]

end FullScan

theorem jobsScannedThisTick_checkJobLimits (nowMs : UInt64) (k : Nat)
    (scan : String → ScanAnswers) (r : JobRunner) :
    (r.checkJobLimits nowMs k scan).value.jobsScannedThisTick =
      if r.runningCount = 0 then r.jobsScannedThisTick
      else min r.runningCount k := by
  unfold checkJobLimits
  by_cases h : r.runningJobs.length = 0
  · have hcount : r.runningCount = 0 := by
      rwa [← length_runningJobs]
    simp [h, hcount]
  · have hcount : r.runningCount ≠ 0 := by
      rwa [← length_runningJobs]
    rw [if_neg h, if_neg hcount, ← length_runningJobs]
    exact RoundRobin.length_window k r.scanCursor r.runningJobs

/-- Scanning a reordered table is scanning the table. -/
theorem sameScan_reordered (layout : Layout) {r : JobRunner}
    (hids : (r.jobs.map Job.id).Nodup) (nowMs : UInt64) {k : Nat}
    (hfull : r.runningCount ≤ k) (scan : String → ScanAnswers) :
    ((r.reordered layout).checkJobLimits nowMs k scan).value.SameScan
      (r.checkJobLimits nowMs k scan).value := by
  have hcount := runningCount_reordered layout r
  have hids' := ids_reordered_nodup layout hids
  have hfull' : (r.reordered layout).runningCount ≤ k := by
    rwa [hcount]
  constructor
  case jobs =>
    intro id
    apply Keyed.lookup?_eq_of_perm
    · rw [jobs_fullScan hids' hfull', jobs_fullScan hids hfull]
      exact (layout.perm r.jobs).map _
    · rw [jobs_checkJobLimits, Keyed.keys_modifyAll (scanJob_id nowMs scan)
        (selectedJobs_nodup k _ hids') hids']
      exact hids'
  case scanCursor =>
    rw [scanCursor_checkJobLimits, scanCursor_checkJobLimits,
      length_runningJobs, length_runningJobs, hcount]
    rfl
  case jobsScannedThisTick =>
    rw [jobsScannedThisTick_checkJobLimits,
      jobsScannedThisTick_checkJobLimits, hcount]
    rfl

/-- A full scan ends the same under any two iteration orders of the table. -/
theorem fullScan_orderIndependent {r : JobRunner}
    (hids : (r.jobs.map Job.id).Nodup) (layout layout' : Layout)
    (nowMs : UInt64) {maxJobsToCheck : Nat}
    (hfull : r.runningCount ≤ maxJobsToCheck)
    (scan : String → ScanAnswers) :
    ((r.reordered layout).checkJobLimits nowMs maxJobsToCheck
        scan).value.SameScan
      ((r.reordered layout').checkJobLimits nowMs maxJobsToCheck
        scan).value :=
  (sameScan_reordered layout hids nowMs hfull scan).trans
    (sameScan_reordered layout' hids nowMs hfull scan).symm

def reversedLayout : Layout := ⟨List.reverse, List.reverse_perm⟩

/-- Two running jobs, scanned from the second on, of which one has ended. -/
def twoRunning : JobRunner :=
  { (runJobs 10 [plainSubmit, plainSubmit, .tick plainTick]).value with
    scanCursor := 1 }

def oneEnded (id : String) : ScanAnswers :=
  if id = "job_1" then { wait := .collected (.exited 0) } else {}

theorem fullScan_orderIndependent_two :
    ((twoRunning.reordered plainLayout).checkJobLimits 2000 2
        oneEnded).value.SameScan
      ((twoRunning.reordered reversedLayout).checkJobLimits 2000 2
        oneEnded).value :=
  fullScan_orderIndependent (by decide +kernel) plainLayout reversedLayout 2000
    (by decide +kernel) oneEnded

end JobRunner

/-- In a run the sum of the cursor and an index stays in range of a
`size_t`. -/
theorem runJobs_scanIndex_lt (maxConcurrentJobs : Nat) (ops : List Op)
    (hsize : (runJobs maxConcurrentJobs ops).value.jobs.length ≤ 2 ^ 63)
    {i : Nat}
    (hi : i < (runJobs maxConcurrentJobs ops).value.runningJobs.length) :
    (runJobs maxConcurrentJobs ops).value.scanCursor + i < 2 ^ 64 := by
  have hcursor := runJobs_scanCursor_le maxConcurrentJobs ops
  have hrunning :=
    (runJobs maxConcurrentJobs ops).value.length_runningJobs_le
  omega

end HeidiKernel
