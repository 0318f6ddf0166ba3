import HeidiKernel.Job.Admission

namespace HeidiKernel

open HeidiKernel.Transition
open HeidiKernel.Data

/-! Admission under memory and CPU pressure. A tick computes the available
memory, the rule of the governor is about the memory in use. -/

/-- The memory in use, in percent of the total. -/
def SystemMetrics.usedPct (metrics : SystemMetrics) : ℚ :=
  ((metrics.mem.total : ℚ) - metrics.mem.available) * 100 / metrics.mem.total

namespace JobRunner

variable {t : Tick} {r : JobRunner}

/-- A tick spawns only below both watermarks, and under `better` metrics it
starts at least as many jobs. -/
def RespectsPressure (t : Tick) (better : SystemMetrics) (r : JobRunner) :
    Prop :=
  ((∃ id answer, .spawnCalled id answer ∈ (r.tick t).events) →
      t.metrics.cpuUsagePercent < r.governor.policy.cpuHighWatermarkPct ∧
        t.metrics.usedPct < r.governor.policy.memHighWatermarkPct) ∧
    (r.tick t).value.jobsStartedThisTick ≤
      (r.tick { t with metrics := better }).value.jobsStartedThisTick

/-- A tick that takes a job off the queue: there is one, the budgets and the
limits leave room, and `decide` finds its arguments below the watermarks. -/
structure Startable (t : Tick) (r : JobRunner) : Prop where
  waiting : r.jobQueue ≠ []
  starts : 1 ≤ t.maxStartsPerTick
  concurrent : r.runningCount < r.maxConcurrent
  depth : toInt32 r.queuedCount < r.governor.policy.maxQueueDepth
  running : toInt32 r.runningCount < r.governor.policy.maxRunningJobs
  cpu : t.metrics.cpuUsagePercent < r.governor.policy.cpuHighWatermarkPct
  mem : memPct t.metrics < r.governor.policy.memHighWatermarkPct

theorem startable_iff :
    r.Startable t ↔ r.Admits t ∧ r.jobQueue ≠ [] ∧ 0 < r.startBudget t := by
  unfold Admits admission startBudget
  rw [ResourceGovernor.decide_startNow_iff]
  constructor
  · intro h
    refine ⟨⟨h.depth, h.running, h.cpu, h.mem⟩, h.waiting, ?_⟩
    have := h.starts
    have := h.concurrent
    omega
  · rintro ⟨⟨hdepth, hrunning, hcpu, hmem⟩, hwaiting, hbudget⟩
    exact ⟨hwaiting, by omega, by omega, hdepth, hrunning, hcpu, hmem⟩

theorem exists_startedJobs_iff :
    (∃ id, id ∈ r.startedJobs t) ↔ r.Startable t := by
  rw [startable_iff]
  constructor
  · intro h
    obtain ⟨id, hid⟩ := h
    obtain ⟨hadmits, i, hget, hcount⟩ := mem_startedJobs_iff.mp hid
    exact ⟨hadmits, List.ne_nil_of_mem (List.mem_of_getElem? hget), by omega⟩
  · rintro ⟨hadmits, hwaiting, hbudget⟩
    obtain ⟨front, queue, hcons⟩ := List.exists_cons_of_ne_nil hwaiting
    exact ⟨front, mem_startedJobs_iff.mpr ⟨hadmits, 0, by simp [hcons],
      by simpa using hbudget⟩⟩

theorem WellFormed.spawns_iff (h : r.WellFormed) :
    (∃ id answer, .spawnCalled id answer ∈ (r.tick t).events) ↔
      r.Startable t := by
  rw [← exists_startedJobs_iff, ← h.spawnedJobs_tick t]
  simp only [mem_spawnedJobs]

theorem jobsStartedThisTick_tick (t : Tick) (r : JobRunner) :
    (r.tick t).value.jobsStartedThisTick = r.successes t := by
  have hscan : ∀ (s : JobRunner),
      (s.checkJobLimits t.nowMs t.maxLimitScansPerTick
        t.scan).value.jobsStartedThisTick = s.jobsStartedThisTick := by
    intro s
    unfold checkJobLimits
    by_cases h : s.runningJobs.length = 0 <;> simp [h]
  rw [tick, Traced.value_bind, hscan, startPhase, successes]
  by_cases h : r.Admits t
  · have hloop := startLoop_eq t r.maxConcurrent r.runningCount r.jobQueue 0
      r.jobs
    simp only [Nat.sub_zero, Nat.zero_add] at hloop
    rw [if_pos h, if_pos (show _ = _ from h), hloop]
    exact countP_take_servedCount _ _ _
  · rw [if_neg h, if_neg (show ¬_ = _ from h)]
    rfl

theorem successes_pos_iff :
    0 < r.successes t ↔
      r.Startable t ∧ ∃ id ∈ r.jobQueue, (t.spawn id).succeeded := by
  unfold successes
  rw [startable_iff]
  split
  · rename_i hadmits
    rw [Nat.lt_min, List.countP_pos_iff]
    constructor
    · rintro ⟨hbudget, id, hid, hspawn⟩
      exact ⟨⟨hadmits, List.ne_nil_of_mem hid, hbudget⟩, id, hid, hspawn⟩
    · rintro ⟨⟨_, _, hbudget⟩, hspawn⟩
      exact ⟨hbudget, hspawn⟩
  · rename_i hblocked
    simp [hblocked]

/-- Metrics decide whether a tick starts jobs, never how many. -/
theorem successes_le_iff (better : SystemMetrics) :
    r.successes t ≤ r.successes { t with metrics := better } ↔
      (0 < r.successes t → r.Admits { t with metrics := better }) := by
  constructor
  · intro hle hpos
    by_contra hblocked
    have hnone : r.successes { t with metrics := better } = 0 :=
      if_neg hblocked
    omega
  · intro hadmits
    rcases Nat.eq_zero_or_pos (r.successes t) with hzero | hpos
    · omega
    · have hsame : r.successes { t with metrics := better } =
          min (r.startBudget t) (r.jobQueue.countP (succeeds t)) :=
        if_pos (hadmits hpos)
      rw [hsame, successes]
      split <;> omega

/-- Under less CPU load it is only the memory rule that can stop a tick. -/
theorem Startable.admits_iff (h : r.Startable t) {better : SystemMetrics}
    (hcpu : better.cpuUsagePercent ≤ t.metrics.cpuUsagePercent) :
    r.Admits { t with metrics := better } ↔
      memPct better < r.governor.policy.memHighWatermarkPct := by
  unfold Admits admission
  rw [ResourceGovernor.decide_startNow_iff]
  exact ⟨fun hadmits => hadmits.2.2.2,
    fun hmem => ⟨h.depth, h.running, hcpu.trans_lt h.cpu, hmem⟩⟩

/-- Which ticks respect the pressure on the machine: those that have nothing to
start, and those at which both the used memory and the available memory of the
better metrics are below the watermark. -/
theorem respectsPressure_iff (maxConcurrentJobs : Nat) (ops : List Op)
    (t : Tick) (better : SystemMetrics)
    (hcpu : better.cpuUsagePercent ≤ t.metrics.cpuUsagePercent) :
    let r := (runJobs maxConcurrentJobs ops).value
    r.RespectsPressure t better ↔
      (r.Startable t →
        t.metrics.usedPct < r.governor.policy.memHighWatermarkPct ∧
          ((∃ id ∈ r.jobQueue, (t.spawn id).succeeded) →
            memPct better < r.governor.policy.memHighWatermarkPct)) := by
  intro r
  have hwf : r.WellFormed := runJobs_wellFormed maxConcurrentJobs ops
  unfold RespectsPressure
  rw [hwf.spawns_iff, jobsStartedThisTick_tick, jobsStartedThisTick_tick,
    successes_le_iff, successes_pos_iff]
  constructor
  · rintro ⟨hbelow, hmore⟩ hstart
    exact ⟨(hbelow hstart).2, fun hspawn =>
      (hstart.admits_iff hcpu).mp (hmore ⟨hstart, hspawn⟩)⟩
  · intro h
    refine ⟨fun hstart => ⟨hstart.cpu, (h hstart).1⟩, ?_⟩
    rintro ⟨hstart, hspawn⟩
    exact (hstart.admits_iff hcpu).mpr ((h hstart).2 hspawn)

def availableTick (available : Nat) : Tick :=
  { plainTick with metrics := ⟨10, ⟨100, available⟩⟩ }

theorem half_used_respectsPressure :
    (runJobs 10 [plainSubmit]).value.RespectsPressure (availableTick 50)
      ⟨10, ⟨100, 60⟩⟩ :=
  (respectsPressure_iff 10 [plainSubmit] (availableTick 50) ⟨10, ⟨100, 60⟩⟩
    (le_refl _)).mpr fun _ =>
      ⟨by decide +kernel, fun _ => by decide +kernel⟩

/-- With 95% of the memory in use a job is spawned; with 5% in use it is
not. -/
theorem exhausted_machine_spawns :
    ¬(runJobs 10 [plainSubmit]).value.RespectsPressure (availableTick 5)
      ⟨10, ⟨100, 95⟩⟩ := by
  intro hrespects
  have hused := (hrespects.1 ⟨"job_1", .spawned 4242 none 5 6,
    by decide +kernel⟩).2
  revert hused
  decide +kernel

end JobRunner

end HeidiKernel
