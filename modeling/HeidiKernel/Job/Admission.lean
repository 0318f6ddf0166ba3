import HeidiKernel.Job.Lifecycle

namespace HeidiKernel

open HeidiKernel.Transition
open HeidiKernel.Data

/-! How many jobs run. The start loop is bounded by the concurrency cap, the
governor is only asked once before it, and a scan never adds a running job. -/

namespace Job

theorem isActive_start (nowMs : UInt64) (answer : SpawnAnswer) (job : Job) :
    (job.start nowMs answer).value.isActive = answer.succeeded := by
  cases h : answer.succeeded <;> simp [isActive, status_start, h]

theorem isActive_scan (nowMs : UInt64) (answers : ScanAnswers) {job : Job}
    (h : (job.scan nowMs answers).value.isActive) : job.isActive := by
  simp only [isActive, status_scan] at h ⊢
  cases hend : (job.drainBoth answers).value.scanOutcome nowMs answers with
  | reaped status =>
      simp only [hend, ScanOutcome.status] at h
      split at h <;> simp at h
  | expired | overCap => simp [hend, ScanOutcome.status] at h
  | truncated | kept => simpa [hend, ScanOutcome.status] using h

theorem isActive_cancel (answers : CancelAnswers) {job : Job}
    (h : (job.cancel answers).value.isActive) : job.isActive := by
  simp only [isActive, status_cancel] at h ⊢
  split at h
  · simp at h
  · exact h

end Job

namespace JobRunner

def successes (t : Tick) (r : JobRunner) : Nat :=
  if r.Admits t then
    min (r.startBudget t) (r.jobQueue.countP (succeeds t))
  else
    0

theorem countP_startedJobs (t : Tick) (r : JobRunner) :
    (r.startedJobs t).countP (succeeds t) = r.successes t := by
  unfold startedJobs successes
  split
  · exact countP_take_servedCount _ _ _
  · rfl

namespace WellFormed

variable {r : JobRunner} (h : r.WellFormed)

include h

theorem runningCount_startPhase_le (t : Tick) :
    (r.startPhase t).value.runningCount ≤ r.runningCount + r.successes t := by
  have hsplit : (r.startPhase t).value.runningCount ≤
      r.jobs.countP (fun job => job.isActive ||
        (decide (job.id ∈ r.startedJobs t) && succeeds t job.id)) := by
    rw [runningCount, h.jobs_startPhase_eq_map t, List.countP_map]
    apply List.countP_mono_left
    intro job _ hactive
    by_cases hstart : job.id ∈ r.startedJobs t
    · have hok : succeeds t job.id = true := by
        simpa [hstart, startJob, Job.isActive_start, succeeds] using hactive
      simp [hstart, hok]
    · simpa [hstart] using hactive
  have hadd : ∀ jobs : List Job, ∀ p q : Job → Bool,
      jobs.countP (fun job => p job || q job) ≤
        jobs.countP p + jobs.countP q := by
    intro jobs p q
    induction jobs with
    | nil => simp
    | cons job jobs ih =>
        simp only [List.countP_cons]
        cases p job <;> cases q job <;> simp <;> omega
  have hstarted : r.jobs.countP (fun job =>
      decide (job.id ∈ r.startedJobs t) && succeeds t job.id) ≤
        (r.startedJobs t).countP (succeeds t) :=
    Keyed.countP_mem_le h.ids_nodup (succeeds t)
  rw [countP_startedJobs] at hstarted
  exact hsplit.trans
    ((hadd _ _ _).trans (Nat.add_le_add_left hstarted _))

theorem runningCount_tick_le (t : Tick) :
    (r.tick t).value.runningCount ≤ r.runningCount + r.successes t := by
  refine Nat.le_trans ?_ (h.runningCount_startPhase_le t)
  rw [runningCount, value_tick_jobs, Keyed.value_modifyAll
    (scanJob_id t.nowMs t.scan) (h.scannedJobs_nodup t)
    (h.ids_startPhase_nodup t), List.countP_map]
  apply List.countP_mono_left
  intro job _ hactive
  by_cases hscan : job.id ∈ r.scannedJobs t
  · exact Job.isActive_scan t.nowMs (t.scan job.id)
      (by simpa [hscan, scanJob] using hactive)
  · simpa [hscan] using hactive

theorem runningCount_cancelJob_le (id : String) (answers : CancelAnswers) :
    (r.cancelJob id answers).value.2.runningCount ≤ r.runningCount := by
  rw [runningCount, h.jobs_cancelJob, List.countP_map]
  apply List.countP_mono_left
  intro job _ hactive
  by_cases hid : id = job.id
  · exact Job.isActive_cancel answers
      (by simpa [actionsOn, hid, jobMachine, Job.act] using hactive)
  · simpa [actionsOn, hid] using hactive

theorem queuedCount_submitJob (command : String) (limits : JobLimits)
    (now : SystemTime) (layout : Layout) :
    (r.submitJob command limits now layout).value.2.queuedCount =
      r.queuedCount + 1 := by
  rw [queuedCount, (h.jobs_submitJob command limits now layout).countP_eq,
    List.countP_append]
  simp [newJob, Job.isQueued, queuedCount]

theorem runningCount_submitJob (command : String) (limits : JobLimits)
    (now : SystemTime) (layout : Layout) :
    (r.submitJob command limits now layout).value.2.runningCount =
      r.runningCount := by
  rw [runningCount, (h.jobs_submitJob command limits now layout).countP_eq,
    List.countP_append]
  simp [newJob, Job.isActive, runningCount]

/-- Only ticks add running jobs, and no more than they start. -/
theorem runningCount_apply_le (op : Op) :
    (r.apply op).value.runningCount ≤ r.runningCount +
      match op with
      | .tick t => r.successes t
      | .submit .. | .cancel .. => 0 := by
  cases op with
  | submit command limits now layout =>
      exact (h.runningCount_submitJob command limits now layout).le
  | cancel id answers => exact h.runningCount_cancelJob_le id answers
  | tick t => exact h.runningCount_tick_le t

end WellFormed

theorem frame_apply (op : Op) (r : JobRunner) :
    (r.apply op).value.maxConcurrent = r.maxConcurrent ∧
      (r.apply op).value.governor = r.governor := by
  cases op with
  | submit command limits now layout => exact ⟨rfl, rfl⟩
  | cancel id answers =>
      simp only [apply, Traced.value_map, cancelJob]
      cases Keyed.lookup? Job.id id r.jobs <;> exact ⟨rfl, rfl⟩
  | tick t =>
      have hframe := checkJobLimits_frame t.nowMs t.maxLimitScansPerTick t.scan
        (r.startPhase t).value
      exact ⟨hframe.1.trans (maxConcurrent_startPhase t r),
        hframe.2.1.trans (governor_startPhase t r)⟩

theorem runJobs_frame (maxConcurrentJobs : Nat) (ops : List Op) :
    (runJobs maxConcurrentJobs ops).value.maxConcurrent = maxConcurrentJobs ∧
      (runJobs maxConcurrentJobs ops).value.governor = {} :=
  Machine.invariant_run
    (I := fun r => r.maxConcurrent = maxConcurrentJobs ∧ r.governor = {})
    (fun r op hI => ⟨(frame_apply op r).1.trans hI.1,
      (frame_apply op r).2.trans hI.2⟩) ⟨rfl, rfl⟩ ops

theorem successes_le (t : Tick) (r : JobRunner) :
    r.successes t ≤ r.maxConcurrent - r.runningCount := by
  unfold successes startBudget
  split <;> omega

theorem runningCount_le_maxConcurrent (maxConcurrentJobs : Nat)
    (ops : List Op) :
    let r := (runJobs maxConcurrentJobs ops).value
    r.runningCount ≤ r.maxConcurrent ∧
      r.maxConcurrent = maxConcurrentJobs := by
  have hinvariant := Machine.invariant_run (m := runnerMachine)
    (I := fun r => r.WellFormed ∧ r.runningCount ≤ r.maxConcurrent)
    (by
      intro r op hI
      have hcount := hI.1.runningCount_apply_le op
      have hframe := (frame_apply op r).1
      refine ⟨hI.1.apply_wellFormed op, ?_⟩
      change (r.apply op).value.runningCount ≤
        (r.apply op).value.maxConcurrent
      rw [hframe]
      refine hcount.trans ?_
      cases op with
      | tick t =>
          have hroom := successes_le t r
          have hle := hI.2
          simp only
          omega
      | submit command limits now layout => exact hI.2
      | cancel id answers => exact hI.2)
    ⟨create_wellFormed maxConcurrentJobs, by simp [create, runningCount]⟩ ops
  exact ⟨hinvariant.2, (runJobs_frame maxConcurrentJobs ops).1⟩

/-- The start loop of the tick stays below the limit of the governor. -/
def StartsWithinLimit (r : JobRunner) : Op → Prop
  | .submit .. | .cancel .. => True
  | .tick t => r.Admits t →
      ((r.runningCount +
        min (r.startBudget t) (r.jobQueue.countP (succeeds t)) : Nat) : Int) ≤
          r.governor.policy.maxRunningJobs

/-- As long as no tick overshoots, no state exceeds the running limit of the
governor. -/
theorem runningCount_le_maxRunningJobs {maxConcurrentJobs : Nat}
    {ops : List Op}
    (halong : runnerMachine.Along StartsWithinLimit (create maxConcurrentJobs)
      ops) :
    ∀ before after, ops = before ++ after →
      let r := (runJobs maxConcurrentJobs before).value
      (r.runningCount : Int) ≤ r.governor.policy.maxRunningJobs := by
  rintro before after rfl
  have hinvariant := Machine.invariant_along (m := runnerMachine)
    (P := StartsWithinLimit)
    (I := fun r => r.WellFormed ∧
      (r.runningCount : Int) ≤ r.governor.policy.maxRunningJobs)
    (by
      intro r op hI hop
      have hcount := hI.1.runningCount_apply_le op
      have hframe := (frame_apply op r).2
      refine ⟨hI.1.apply_wellFormed op, ?_⟩
      change ((r.apply op).value.runningCount : Int) ≤
        (r.apply op).value.governor.policy.maxRunningJobs
      rw [hframe]
      refine (Int.ofNat_le.mpr hcount).trans ?_
      cases op with
      | tick t =>
          simp only [successes]
          split
          · rename_i hadmits
            exact hop hadmits
          · exact hI.2
      | submit command limits now layout => exact hI.2
      | cancel id answers => exact hI.2)
    ⟨create_wellFormed maxConcurrentJobs, by simp [create, runningCount]⟩
    (Machine.along_append.mp halong).1
  exact hinvariant.2

theorem one_job_within_limit :
    let r := (runJobs 20 [plainSubmit, .tick plainTick]).value
    (r.runningCount : Int) ≤ r.governor.policy.maxRunningJobs := by
  have hwithin : runnerMachine.Along StartsWithinLimit (create 20)
      [plainSubmit, .tick plainTick] :=
    ⟨trivial, (by decide +kernel : _ → _), trivial⟩
  exact runningCount_le_maxRunningJobs hwithin _ [] rfl

/-- Two ticks starting seven jobs each, under a cap of twenty. -/
def overshoot : List Op :=
  List.replicate 14 plainSubmit ++
    List.replicate 2 (.tick { plainTick with maxStartsPerTick := 7 })

theorem overshoot_exceeds_limit :
    ¬((runJobs 20 overshoot).value.runningCount : Int) ≤
      (runJobs 20 overshoot).value.governor.policy.maxRunningJobs := by
  have hcount : (runJobs 20 overshoot).value.runningCount = 14 := by
    decide +kernel
  rw [hcount, (runJobs_frame 20 overshoot).2]
  decide

theorem toInt32_of_lt {n : Nat} (h : n < 2 ^ 31) : toInt32 n = n := by
  have hmod : n % 2 ^ 32 = n := Nat.mod_eq_of_lt (by omega)
  rw [toInt32, BitVec.toInt_eq_toNat_cond, BitVec.toNat_ofNat, hmod]
  split <;> omega

/-- With free capacity and metrics below the watermarks it is only the queue
depth that decides whether a tick spawns. -/
theorem spawns_iff_queue_below_depth (maxConcurrentJobs : Nat) (ops : List Op)
    (t : Tick) :
    let r := (runJobs maxConcurrentJobs ops).value
    let policy := r.governor.policy
    r.jobQueue ≠ [] → r.runningCount < r.maxConcurrent →
    (r.runningCount : Int) < policy.maxRunningJobs →
    t.metrics.cpuUsagePercent < policy.cpuHighWatermarkPct →
    memPct t.metrics < policy.memHighWatermarkPct →
    1 ≤ t.maxStartsPerTick →
    ((∃ id answer, .spawnCalled id answer ∈ (r.tick t).events) ↔
      toInt32 r.queuedCount < policy.maxQueueDepth) := by
  intro r policy hqueue hroom hrunning hcpu hmem hstarts
  have hwf : r.WellFormed := runJobs_wellFormed maxConcurrentJobs ops
  have hdefault : policy = {} := by
    simp only [policy, r, (runJobs_frame maxConcurrentJobs ops).2]
  have hint : toInt32 r.runningCount = r.runningCount := by
    apply toInt32_of_lt
    rw [hdefault] at hrunning
    simp only at hrunning
    omega
  have hadmits : r.Admits t ↔ toInt32 r.queuedCount < policy.maxQueueDepth := by
    unfold Admits admission
    rw [ResourceGovernor.decide_startNow_iff, hint]
    exact ⟨fun h => h.1, fun h => ⟨h, hrunning, hcpu, hmem⟩⟩
  have hbudget : 0 < r.startBudget t := by
    unfold startBudget
    omega
  obtain ⟨front, queue, hcons⟩ := List.exists_cons_of_ne_nil hqueue
  have hstarted : (∃ id, id ∈ r.startedJobs t) ↔ r.Admits t := by
    constructor
    · intro h
      obtain ⟨id, hid⟩ := h
      exact (mem_startedJobs_iff.mp hid).1
    · intro h
      exact ⟨front, mem_startedJobs_iff.mpr ⟨h, 0, by simp [hcons],
        by simpa using hbudget⟩⟩
  rw [← hadmits, ← hstarted]
  simp only [← hwf.spawnedJobs_tick t, mem_spawnedJobs]

theorem one_job_spawns :
    ∃ id answer, .spawnCalled id answer ∈
      ((runJobs 20 [plainSubmit]).value.tick plainTick).events :=
  (spawns_iff_queue_below_depth 20 [plainSubmit] plainTick
    (by decide +kernel) (by decide +kernel) (by decide +kernel)
    (by decide +kernel) (by decide +kernel) (by decide +kernel)).mpr
    (by decide +kernel)

/-- What nothing but submissions leads to. -/
structure OnlyQueued (n : Nat) (r : JobRunner) : Prop where
  queued : r.queuedCount = n
  running : r.runningCount = 0
  queue : r.jobQueue.length = n

theorem submissions_counts (maxConcurrentJobs n : Nat) :
    OnlyQueued n
      (runJobs maxConcurrentJobs (List.replicate n plainSubmit)).value := by
  induction n with
  | zero => exact ⟨rfl, rfl, rfl⟩
  | succ n ih =>
      have hwf := runJobs_wellFormed maxConcurrentJobs
        (List.replicate n plainSubmit)
      rw [List.replicate_succ', runJobs, Machine.value_run_concat]
      have hqueued := hwf.queuedCount_submitJob "sleep 60" {} 0 plainLayout
      have hrunning := hwf.runningCount_submitJob "sleep 60" {} 0 plainLayout
      rw [ih.queued] at hqueued
      rw [ih.running] at hrunning
      refine ⟨hqueued, hrunning, ?_⟩
      exact (List.length_append ..).trans (congrArg (· + 1) ih.queue)

theorem Admits.below_depth {r : JobRunner} {t : Tick} (h : r.Admits t) :
    toInt32 r.queuedCount < r.governor.policy.maxQueueDepth := by
  unfold Admits admission at h
  rw [ResourceGovernor.decide_startNow_iff] at h
  exact h.1

/-- A hundred queued jobs stall an idle runner. -/
theorem full_queue_stalls :
    let r := (runJobs 20 (List.replicate 100 plainSubmit)).value
    r.jobQueue ≠ [] ∧ r.runningCount < r.maxConcurrent ∧
      (r.runningCount : Int) < r.governor.policy.maxRunningJobs ∧
      plainTick.metrics.cpuUsagePercent <
        r.governor.policy.cpuHighWatermarkPct ∧
      memPct plainTick.metrics < r.governor.policy.memHighWatermarkPct ∧
      1 ≤ plainTick.maxStartsPerTick ∧
      spawnedJobs (r.tick plainTick).events = [] := by
  intro r
  obtain ⟨hqueued, hrunning, hqueue⟩ : OnlyQueued 100 r :=
    submissions_counts 20 100
  obtain ⟨hmax, hgovernor⟩ : r.maxConcurrent = 20 ∧ r.governor = {} :=
    runJobs_frame 20 _
  have hwf : r.WellFormed := runJobs_wellFormed 20 _
  have hfull : ¬r.Admits plainTick := by
    intro hadmits
    have hbelow := hadmits.below_depth
    rw [hqueued, hgovernor] at hbelow
    exact absurd hbelow (by decide)
  have hnone : spawnedJobs (r.tick plainTick).events = [] := by
    rw [hwf.spawnedJobs_tick, List.eq_nil_iff_forall_not_mem]
    intro id hid
    exact hfull (mem_startedJobs_iff.mp hid).1
  have hne : r.jobQueue ≠ [] := List.ne_nil_of_length_pos (by omega)
  rw [hrunning, hmax, hgovernor]
  exact ⟨hne, by decide, by decide, by decide, by decide, by decide, hnone⟩

end JobRunner

end HeidiKernel
