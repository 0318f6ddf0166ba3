import HeidiKernel.Job.Retention

namespace HeidiKernel

open HeidiKernel.Transition
open HeidiKernel.Data

/-! When a scan enforces the process cap. The cap is the last of the enforcers,
and a scan that cuts the log does not get to it. -/

namespace Job

/-- The bytes a scan finds in a pipe that is still open. -/
def arriving (answers : ScanAnswers) (job : Job) (stream : Stream) : Bytes :=
  if job.fd stream ≠ -1 then (answers.read stream).getD [] else []

def logAfterReads (answers : ScanAnswers) (job : Job) : Nat :=
  job.logSize + (job.arriving answers .stdout).length +
    (job.arriving answers .stderr).length

theorem logSize_drainBoth (answers : ScanAnswers) (job : Job) :
    (job.drainBoth answers).value.logSize = job.logAfterReads answers := by
  have hcaptured := fun stream =>
    (collects_drainBoth answers job).captured stream
  simp only [← readBytes_scan_eq_drainBoth 0, readBytes_scan] at hcaptured
  have houtput : (job.drainBoth answers).value.output =
      job.output ++ job.arriving answers .stdout := hcaptured .stdout
  have herror : (job.drainBoth answers).value.error =
      job.error ++ job.arriving answers .stderr := hcaptured .stderr
  rw [logSize, houtput, herror, List.length_append, List.length_append,
    logAfterReads, logSize]
  omega

theorem startTimes_drain (stream : Stream) (answer : Option Bytes)
    (job : Job) :
    (job.drain stream answer).value.startedAtMs = job.startedAtMs ∧
      (job.drain stream answer).value.leaderStartTime =
        job.leaderStartTime := by
  rcases drain_cases stream answer job with h | ⟨bytes, h⟩ | h <;>
    rw [h] <;> cases stream <;> exact ⟨rfl, rfl⟩

theorem startTimes_drainBoth (answers : ScanAnswers) (job : Job) :
    (job.drainBoth answers).value.startedAtMs = job.startedAtMs ∧
      (job.drainBoth answers).value.leaderStartTime = job.leaderStartTime := by
  have hfirst := startTimes_drain .stdout answers.stdoutRead job
  have hsecond := startTimes_drain .stderr answers.stderrRead
    (job.drain .stdout answers.stdoutRead).value
  exact ⟨hsecond.1.trans hfirst.1, hsecond.2.trans hfirst.2⟩

/-- How the scan of a job ends that is neither reaped nor timed out. -/
theorem scanOutcome_drainBoth {nowMs : UInt64} {answers : ScanAnswers}
    {job : Job} (hreaped : job.collected? answers = none)
    (htime : job.timedOut nowMs = false) :
    (job.drainBoth answers).value.scanOutcome nowMs answers =
      if job.maxLogBytes < job.logAfterReads answers then .truncated
      else if job.exceedsProcessCap answers then .overCap
      else .kept := by
  have hsame := (stays_drainBoth answers job).same
  obtain ⟨hstarted, hleader⟩ := startTimes_drainBoth answers job
  have hnone : (job.drainBoth answers).value.collected? answers = none := by
    rw [← hreaped, collected?, collected?, processGroup_drainBoth]
  have hrunning : (job.drainBoth answers).value.timedOut nowMs = false := by
    rw [← htime, timedOut, timedOut, hstarted, hsame.maxRuntimeMs]
  have hcap : (job.drainBoth answers).value.exceedsProcessCap answers =
      job.exceedsProcessCap answers := by
    rw [exceedsProcessCap, exceedsProcessCap, startTimeMismatch,
      startTimeMismatch, hleader, processGroup_drainBoth,
      hsame.maxChildProcesses]
  have hlog : (job.drainBoth answers).value.exceedsLogCap = true ↔
      job.maxLogBytes < job.logAfterReads answers := by
    rw [exceedsLogCap_iff, logSize_drainBoth, hsame.maxLogBytes]
  simp only [scanOutcome, hnone, hrunning, hcap, Bool.false_eq_true, if_false,
    hlog]

/-- The process cap ends a job only when the log is within its own cap. -/
theorem status_scan_eq_procLimit_iff {nowMs : UInt64} {answers : ScanAnswers}
    {job : Job} (hactive : job.isActive)
    (hreaped : job.collected? answers = none)
    (htime : job.timedOut nowMs = false)
    (hmatch : job.startTimeMismatch answers = false)
    (hcount : 0 ≤ answers.processCount) :
    (job.scan nowMs answers).value.status = .procLimit ↔
      job.maxChildProcesses < answers.processCount ∧
        job.logAfterReads answers ≤ job.maxLogBytes := by
  have hbefore : job.status ≠ .procLimit := by
    intro hended
    simp [isActive, hended] at hactive
  have hexceeds : job.exceedsProcessCap answers = true ↔
      job.maxChildProcesses < answers.processCount := by
    simp [exceedsProcessCap, hmatch, hcount]
  rw [status_scan, scanOutcome_drainBoth hreaped htime]
  by_cases hlog : job.maxLogBytes < job.logAfterReads answers
  · simp [hlog, ScanOutcome.status, hbefore, Nat.not_le.mpr hlog]
  · by_cases hover : job.maxChildProcesses < answers.processCount
    · simp [hlog, hexceeds, hover, ScanOutcome.status, Nat.not_lt.mp hlog]
    · simp [hlog, hexceeds, hover, ScanOutcome.status, hbefore]

end Job

namespace JobRunner

theorem WellFormed.getJobStatus_tick {r : JobRunner} (h : r.WellFormed)
    {t : Tick} {id : String} {job : Job}
    (hjob : (r.startPhase t).value.getJobStatus id = some job)
    (hscanned : id ∈ r.scannedJobs t) :
    (r.tick t).value.getJobStatus id =
      some (job.scan t.nowMs (t.scan id)).value := by
  obtain ⟨hmem, rfl⟩ := Keyed.lookup?_sound hjob
  exact getJobStatus_checkJobLimits (h.ids_startPhase_nodup t) hmem hscanned
    t.nowMs t.scan

/-- The process cap is enforced on a scan, as its limit says, exactly if the
log does not exceed its own cap while there are too many processes, and no
processes are counted against a limit of zero. -/
theorem processCap_enforced_iff (maxConcurrentJobs : Nat) (ops : List Op)
    {t : Tick} {id : String} {job : Job}
    (hjob : ((runJobs maxConcurrentJobs ops).value.startPhase
      t).value.getJobStatus id = some job)
    (hscanned : id ∈ (runJobs maxConcurrentJobs ops).value.scannedJobs t)
    (hreaped : job.collected? (t.scan id) = none)
    (htime : job.timedOut t.nowMs = false)
    (hmatch : job.startTimeMismatch (t.scan id) = false)
    (hcount : 0 ≤ (t.scan id).processCount) :
    let limit := job.maxChildProcesses
    let count := (t.scan id).processCount
    (∃ after, ((runJobs maxConcurrentJobs ops).value.tick
        t).value.getJobStatus id = some after ∧
      (0 < limit ∧ limit < count → after.status = .procLimit) ∧
      (count ≤ limit ∨ limit = 0 → after.status ≠ .procLimit)) ↔
    (0 < limit ∧ limit < count →
        job.logAfterReads (t.scan id) ≤ job.maxLogBytes) ∧
      (limit = 0 ∧ 0 < count →
        job.maxLogBytes < job.logAfterReads (t.scan id)) := by
  intro limit count
  have hwf := runJobs_wellFormed maxConcurrentJobs ops
  have hactive : job.isActive := by
    obtain ⟨hmem, rfl⟩ := Keyed.lookup?_sound hjob
    exact isActive_of_mem_selectedJobs (hwf.ids_startPhase_nodup t) hmem
      hscanned
  have hstatus := Job.status_scan_eq_procLimit_iff hactive hreaped htime hmatch
    hcount
  rw [hwf.getJobStatus_tick hjob hscanned]
  simp only [Option.some.injEq, exists_eq_left', ne_eq, hstatus]
  change ((0 < limit ∧ limit < count → limit < count ∧ _) ∧
    (count ≤ limit ∨ limit = 0 → ¬(limit < count ∧ _))) ↔ _
  constructor
  · rintro ⟨henforced, hspared⟩
    refine ⟨fun hover => (henforced hover).2, fun hzero => ?_⟩
    by_contra hfits
    exact hspared (.inr hzero.1) ⟨by omega, Nat.not_lt.mp hfits⟩
  · rintro ⟨hfits, hcut⟩
    refine ⟨fun hover => ⟨hover.2, hfits hover⟩, ?_⟩
    rintro hspared ⟨hover, hlog⟩
    have := hcut (by omega)
    omega

def oneScan (limits : JobLimits) : List Op :=
  [.submit "make -j" limits 0 plainLayout]

def countingTick (processCount : Int) : Tick :=
  { plainTick with
    scan := fun _ => { stdoutRead := some [1, 2, 3, 4], processCount } }

theorem eleventh_process_enforced :
    ∃ after, ((runJobs 1 (oneScan { maxChildProcesses := 10 })).value.tick
        (countingTick 11)).value.getJobStatus "job_1" = some after ∧
      ((0 : Int) < 10 ∧ (10 : Int) < 11 → after.status = .procLimit) ∧
      ((11 : Int) ≤ 10 ∨ (10 : Int) = 0 → after.status ≠ .procLimit) :=
  (@processCap_enforced_iff 1 (oneScan { maxChildProcesses := 10 })
    (countingTick 11) "job_1"
    ((newJob "job_1" "make -j" { maxChildProcesses := 10 } 0).start 1000
      (.spawned 4242 none 5 6)).value
    (by decide +kernel) (by decide +kernel) (by decide +kernel)
    (by decide +kernel) (by decide +kernel) (by decide +kernel)).mpr
    ⟨fun _ => by decide +kernel, fun hzero => absurd hzero.1 (by decide)⟩

/-- With a full log a hundred processes pass a cap of ten; a cap of zero, which
means no limit, ends a job with a single process. -/
theorem full_log_spares_processes :
    let full := (runJobs 1
      (oneScan { maxChildProcesses := 10, maxLogBytes := 3 })).value
    let unlimited := (runJobs 1 (oneScan { maxChildProcesses := 0 })).value
    "job_1" ∈ full.scannedJobs (countingTick 100) ∧
      ((full.tick (countingTick 100)).value.getJobStatus "job_1").map
        Job.status = some .running ∧
      "job_1" ∈ unlimited.scannedJobs (countingTick 1) ∧
      ((unlimited.tick (countingTick 1)).value.getJobStatus "job_1").map
        Job.status = some .procLimit := by
  decide +kernel

end JobRunner

end HeidiKernel
