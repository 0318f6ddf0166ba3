import HeidiKernel.Job.Backpressure

namespace HeidiKernel

open HeidiKernel.Transition
open HeidiKernel.Data

/-! Whether the runner gets through its jobs. In calm conditions every tick
takes a job off the queue or ends one, so that what is left to do runs out, as
long as the queue is below the depth at which the governor rejects. -/

namespace JobRunner

/-- The metrics are below the watermarks, both budgets allow something, and
the jobs the tick scans are done: their leaders have exited, or they are out of
time. -/
structure Calm (r : JobRunner) (t : Tick) : Prop where
  cpu : t.metrics.cpuUsagePercent < r.governor.policy.cpuHighWatermarkPct
  mem : memPct t.metrics < r.governor.policy.memHighWatermarkPct
  starts : 1 ≤ t.maxStartsPerTick
  scans : 1 ≤ t.maxLimitScansPerTick
  ends : ∀ job ∈ (r.tick t).value.jobs, job.id ∈ r.scannedJobs t →
    job.status.isTerminal

/-- The same of the ticks of a run. -/
def CalmTick (r : JobRunner) : Op → Prop
  | .tick t => r.Calm t
  | .submit .. | .cancel .. => False

instance (r : JobRunner) (t : Tick) : Decidable (r.Calm t) :=
  decidable_of_iff
    (t.metrics.cpuUsagePercent < r.governor.policy.cpuHighWatermarkPct ∧
      memPct t.metrics < r.governor.policy.memHighWatermarkPct ∧
      1 ≤ t.maxStartsPerTick ∧ 1 ≤ t.maxLimitScansPerTick ∧
      ∀ job ∈ (r.tick t).value.jobs, job.id ∈ r.scannedJobs t →
        job.status.isTerminal)
    ⟨fun ⟨cpu, mem, starts, scans, ends⟩ => ⟨cpu, mem, starts, scans, ends⟩,
      fun ⟨cpu, mem, starts, scans, ends⟩ => ⟨cpu, mem, starts, scans, ends⟩⟩

instance (r : JobRunner) : (op : Op) → Decidable (CalmTick r op)
  | .tick t => inferInstanceAs (Decidable (r.Calm t))
  | .submit .. | .cancel .. => .isFalse id

/-- A waiting job has to be started and to end, a running one to end. -/
def remainingWork (r : JobRunner) : Nat :=
  2 * r.jobQueue.length + r.runningCount

namespace WellFormed

variable {r : JobRunner} (h : r.WellFormed)

include h

omit h in
theorem length_jobQueue_tick (t : Tick) :
    (r.startedJobs t).length + (r.tick t).value.jobQueue.length =
      r.jobQueue.length := by
  rw [jobQueue_tick, ← startedJobs_append_jobQueue t r, List.length_append]

omit h in
theorem successes_le_started (t : Tick) :
    r.successes t ≤ (r.startedJobs t).length := by
  rw [← countP_startedJobs]
  exact List.countP_le_length

theorem runningCount_le_startPhase (t : Tick) :
    r.runningCount ≤ (r.startPhase t).value.runningCount := by
  rw [runningCount, runningCount, h.jobs_startPhase_eq_map t, List.countP_map]
  apply List.countP_mono_left
  intro job hjob hactive
  have hwaits : job.id ∉ r.startedJobs t := by
    intro hstart
    rcases h.waiting job hjob (startedJobs_subset t r hstart) with hstatus |
      hstatus <;> simp [Job.isActive, hstatus] at hactive
  simpa [hwaits] using hactive

theorem jobs_tick_scan (t : Tick) :
    (r.tick t).value.jobs = (r.startPhase t).value.jobs.map fun job =>
      if job.id ∈ r.scannedJobs t then (scanJob t.nowMs t.scan job).value
      else job := by
  rw [value_tick_jobs, Keyed.value_modifyAll (scanJob_id t.nowMs t.scan)
    (h.scannedJobs_nodup t) (h.ids_startPhase_nodup t)]

theorem not_isActive_of_calm {t : Tick} (hcalm : r.Calm t) {job : Job}
    (hjob : job ∈ (r.startPhase t).value.jobs)
    (hscan : job.id ∈ r.scannedJobs t) :
    (scanJob t.nowMs t.scan job).value.isActive = false := by
  have hmem : (scanJob t.nowMs t.scan job).value ∈ (r.tick t).value.jobs := by
    rw [h.jobs_tick_scan t]
    exact List.mem_map.mpr ⟨job, hjob, if_pos hscan⟩
  have hterminal := hcalm.ends _ hmem (by rwa [scanJob_id])
  generalize (scanJob t.nowMs t.scan job).value = after at hterminal ⊢
  cases hstatus : after.status <;>
    simp [Job.isActive, JobStatus.isTerminal, hstatus] at hterminal ⊢

omit h in
theorem isActive_of_scanned (t : Tick) (job : Job) :
    (if job.id ∈ r.scannedJobs t then
      (scanJob t.nowMs t.scan job).value else job).isActive →
    job.isActive := by
  intro hafter
  by_cases hscan : job.id ∈ r.scannedJobs t
  · rw [if_pos hscan] at hafter
    exact Job.isActive_scan t.nowMs (t.scan job.id) hafter
  · rwa [if_neg hscan] at hafter

theorem runningCount_tick_le_startPhase (t : Tick) :
    (r.tick t).value.runningCount ≤ (r.startPhase t).value.runningCount := by
  rw [runningCount, runningCount, h.jobs_tick_scan t, List.countP_map]
  apply List.countP_mono_left
  intro job _ hafter
  rw [Function.comp_apply] at hafter
  exact isActive_of_scanned t job hafter

/-- A tick with something to scan ends a job at least. -/
theorem runningCount_tick_lt {t : Tick} (hcalm : r.Calm t)
    (hactive : 0 < (r.startPhase t).value.runningCount) :
    (r.tick t).value.runningCount <
      (r.startPhase t).value.runningCount := by
  have hscan : 0 < (r.scannedJobs t).length := by
    rw [scannedJobs, selectedJobs_eq_window, RoundRobin.length_window,
      length_runningJobs]
    have := hcalm.scans
    omega
  obtain ⟨id, hid⟩ := List.exists_mem_of_length_pos hscan
  obtain ⟨job, hjob, hrunning, rfl⟩ :=
    (mem_runningJobs _).mp (selectedJobs_subset _ _ hid)
  rw [runningCount, runningCount, h.jobs_tick_scan t, List.countP_map]
  apply Keyed.countP_lt _ hjob hrunning
  · simpa [hid] using h.not_isActive_of_calm hcalm hjob hid
  · intro other _ hafter
    rw [Function.comp_apply] at hafter
    exact isActive_of_scanned t other hafter

omit h in
/-- An idle runner starts something in calm conditions, if its queue is not
empty but below the depth. -/
theorem startedJobs_of_calm {t : Tick} (hcalm : r.Calm t)
    (hgovernor : r.governor = {}) (hroom : 0 < r.maxConcurrent)
    (hidle : r.runningCount = 0) (hdepth : r.queuedCount < 100)
    (hqueue : r.jobQueue ≠ []) : 0 < (r.startedJobs t).length := by
  have hcpu := hcalm.cpu
  have hmem := hcalm.mem
  have hstarts := hcalm.starts
  have hqueued : toInt32 r.queuedCount = r.queuedCount :=
    toInt32_of_lt (by omega)
  have hadmits : r.Admits t := by
    unfold Admits admission
    rw [ResourceGovernor.decide_startNow_iff, hidle, hqueued]
    refine ⟨?_, ?_, hcpu, hmem⟩
    · rw [hgovernor]
      exact Int.ofNat_lt.mpr hdepth
    · rw [hgovernor]
      decide
  obtain ⟨front, queue, hcons⟩ := List.exists_cons_of_ne_nil hqueue
  have hbudget : 0 < r.startBudget t := by
    unfold startBudget
    omega
  have hfront : front ∈ r.startedJobs t :=
    mem_startedJobs_iff.mpr ⟨hadmits, 0, by simp [hcons], by simpa using hbudget⟩
  exact List.length_pos_of_mem hfront

theorem remainingWork_tick_lt {t : Tick} (hcalm : r.Calm t)
    (hgovernor : r.governor = {}) (hroom : 0 < r.maxConcurrent)
    (hdepth : r.queuedCount < 100) (hwork : 0 < r.remainingWork) :
    (r.tick t).value.remainingWork < r.remainingWork := by
  have hqueue := length_jobQueue_tick (r := r) t
  have hsuccesses := successes_le_started (r := r) t
  have hstart := h.runningCount_startPhase_le t
  have hbefore := h.runningCount_le_startPhase t
  have htick := h.runningCount_tick_le t
  unfold remainingWork at hwork ⊢
  rcases Nat.eq_zero_or_pos (r.startPhase t).value.runningCount with
    hzero | hactive
  · -- Nothing runs when the tick scans, so all it started has failed.
    have hnone := h.runningCount_tick_le_startPhase t
    have hwaiting : r.jobQueue ≠ [] := by
      rintro hnil
      rw [hnil, List.length_nil] at hwork
      omega
    have hstarted := startedJobs_of_calm hcalm hgovernor hroom (by omega)
      hdepth hwaiting
    omega
  · have hended := h.runningCount_tick_lt hcalm hactive
    omega

theorem remainingWork_tick_zero (t : Tick) (hzero : r.remainingWork = 0) :
    (r.tick t).value.remainingWork = 0 := by
  have hqueue := length_jobQueue_tick (r := r) t
  have hsuccesses := successes_le_started (r := r) t
  have htick := h.runningCount_tick_le t
  unfold remainingWork at hzero ⊢
  omega

theorem isTerminal_of_remainingWork (hdone : r.remainingWork = 0) {job : Job}
    (hjob : job ∈ r.jobs) : job.status.isTerminal := by
  unfold remainingWork runningCount at hdone
  have hqueue : r.jobQueue = [] := List.eq_nil_of_length_eq_zero (by omega)
  have hidle : r.jobs.countP Job.isActive = 0 := by omega
  have hactive := List.countP_eq_zero.mp hidle job hjob
  have hwaiting := h.queued_waiting job hjob
  rw [hqueue] at hwaiting
  cases hstatus : job.status <;>
    simp [Job.isActive, JobStatus.isTerminal, hstatus] at hactive hwaiting ⊢

theorem queuedCount_tick_of_not_admits {t : Tick} (hfull : ¬r.Admits t) :
    r.queuedCount ≤ (r.tick t).value.queuedCount := by
  rw [queuedCount, queuedCount, h.jobs_tick t, List.countP_map]
  apply List.countP_mono_left
  intro job hjob hqueued
  have hwaiting : job.id ∈ (r.startPhase t).value.jobQueue := by
    rw [(startPhase_of_not_admits hfull).2.1]
    exact h.queued_waiting job hjob (by simpa [Job.isQueued] using hqueued)
  simpa [h.tickActions_eq_nil_of_waiting t hjob hwaiting] using hqueued

end WellFormed

/-- What a run of calm ticks keeps. -/
structure Draining (maxConcurrentJobs : Nat) (r : JobRunner) : Prop where
  wellFormed : r.WellFormed
  maxConcurrent : r.maxConcurrent = maxConcurrentJobs
  governor : r.governor = {}

theorem Draining.tick {maxConcurrentJobs : Nat} {r : JobRunner}
    (h : Draining maxConcurrentJobs r) (op : Op) :
    Draining maxConcurrentJobs (r.apply op).value where
  wellFormed := h.wellFormed.apply_wellFormed op
  maxConcurrent := (frame_apply op r).1.trans h.maxConcurrent
  governor := (frame_apply op r).2.trans h.governor

theorem draining_runJobs (maxConcurrentJobs : Nat) (ops : List Op) :
    Draining maxConcurrentJobs (runJobs maxConcurrentJobs ops).value :=
  ⟨runJobs_wellFormed maxConcurrentJobs ops,
    (runJobs_frame maxConcurrentJobs ops).1,
    (runJobs_frame maxConcurrentJobs ops).2⟩

/-- A queue at the depth stays there, whatever the ticks. -/
theorem depth_kept {maxConcurrentJobs : Nat} {r : JobRunner} {ticks : List Op}
    (hinit : Draining maxConcurrentJobs r)
    (hcalm : runnerMachine.Along CalmTick r ticks)
    (hlow : 100 ≤ r.queuedCount) (hhigh : r.queuedCount < 2 ^ 31) :
    100 ≤ (runnerMachine.run r ticks).value.queuedCount := by
  have hinvariant := Machine.invariant_along (m := runnerMachine)
    (P := CalmTick)
    (I := fun r => Draining maxConcurrentJobs r ∧ 100 ≤ r.queuedCount ∧
      r.queuedCount < 2 ^ 31)
    (by
      rintro r op ⟨hdraining, hlow, hhigh⟩ hop
      refine ⟨hdraining.tick op, ?_⟩
      cases op with
      | submit command limits now layout => exact hop.elim
      | cancel id answers => exact hop.elim
      | tick t =>
          have hfull : ¬r.Admits t := by
            intro hadmits
            have hbelow := hadmits.below_depth
            rw [toInt32_of_lt hhigh, hdraining.governor] at hbelow
            have : (r.queuedCount : Int) < 100 := hbelow
            omega
          have hkept :=
            hdraining.wellFormed.queuedCount_tick_of_not_admits hfull
          have hless := hdraining.wellFormed.queuedCount_tick_le t
          change 100 ≤ (r.tick t).value.queuedCount ∧
            (r.tick t).value.queuedCount < 2 ^ 31
          omega)
    ⟨hinit, hlow, hhigh⟩ hcalm
  exact hinvariant.2.1

/-- A queue below the depth stays there, and every calm tick has something to
do for as long as there is something left. -/
theorem Draining.calm {maxConcurrentJobs : Nat} {r : JobRunner}
    (h : Draining maxConcurrentJobs r) (hroom : 0 < maxConcurrentJobs)
    (hbelow : r.queuedCount < 100) {op : Op} (hop : r.CalmTick op) :
    (r.apply op).value.queuedCount < 100 ∧
      ((r.apply op).value.remainingWork < r.remainingWork ∨
        (r.apply op).value.remainingWork = 0) := by
  cases op with
  | submit command limits now layout => exact hop.elim
  | cancel id answers => exact hop.elim
  | tick t =>
      refine ⟨(h.wellFormed.queuedCount_tick_le t).trans_lt hbelow, ?_⟩
      rcases Nat.eq_zero_or_pos r.remainingWork with hzero | hpos
      · exact .inr (h.wellFormed.remainingWork_tick_zero t hzero)
      · exact .inl (h.wellFormed.remainingWork_tick_lt hop h.governor
          (h.maxConcurrent ▸ hroom) hbelow hpos)

theorem depth_drained {maxConcurrentJobs : Nat} {r : JobRunner}
    {ticks : List Op} (hinit : Draining maxConcurrentJobs r)
    (hroom : 0 < maxConcurrentJobs) (hbelow : r.queuedCount < 100)
    (hcalm : runnerMachine.Along CalmTick r ticks)
    (hlong : r.remainingWork ≤ ticks.length) :
    ∀ job ∈ (runnerMachine.run r ticks).value.jobs, job.status.isTerminal := by
  have hrank := Machine.rank_along (m := runnerMachine) (P := CalmTick)
    (I := fun s => Draining maxConcurrentJobs s ∧ s.queuedCount < 100)
    (f := remainingWork)
    (fun s op hs hop => ⟨hs.1.tick op, (hs.1.calm hroom hs.2 hop).1⟩)
    (fun s op hs hop => (hs.1.calm hroom hs.2 hop).2)
    ⟨hinit, hbelow⟩ hcalm
  have hwf : (runnerMachine.run r ticks).value.WellFormed :=
    Machine.invariant_run (m := runnerMachine)
      (fun _ op hwf => hwf.apply_wellFormed op) hinit.wellFormed ticks
  exact fun job hjob => hwf.isTerminal_of_remainingWork (by omega) hjob

/-- From any state a run can reach, enough calm ticks end every job there is
if and only if the queue is below the depth of the governor. -/
theorem drained_iff_below_depth {maxConcurrentJobs : Nat}
    (hroom : 0 < maxConcurrentJobs) (ops ticks : List Op) :
    let r := (runJobs maxConcurrentJobs ops).value
    r.queuedCount < 2 ^ 31 → runnerMachine.Along CalmTick r ticks →
    r.remainingWork ≤ ticks.length →
    ((∀ job ∈ (runnerMachine.run r ticks).value.jobs,
        job.status.isTerminal) ↔
      (r.queuedCount : Int) < r.governor.policy.maxQueueDepth) := by
  intro r hint hcalm hlong
  have hinit : Draining maxConcurrentJobs r := draining_runJobs _ ops
  have hdefault : r.governor.policy.maxQueueDepth = 100 := by
    rw [hinit.governor]
  rw [hdefault]
  constructor
  · intro hended
    by_contra hdepth
    have hkept := depth_kept hinit hcalm (by omega) hint
    obtain ⟨job, hjob, hqueued⟩ : ∃ job ∈
        (runnerMachine.run r ticks).value.jobs, job.isQueued :=
      List.countP_pos_iff.mp (Nat.lt_of_lt_of_le (by decide) hkept)
    have hterminal := hended job hjob
    have hstatus : job.status = .queued := by
      simpa [Job.isQueued] using hqueued
    rw [hstatus] at hterminal
    contradiction
  · intro hdepth
    exact depth_drained hinit hroom (by omega) hcalm hlong

/-- Two jobs are collected and two are started in every tick. -/
def twoStartsTick : Op :=
  .tick { plainTick with
    maxStartsPerTick := 2
    scan := fun _ => { wait := .collected (.exited 0) } }

/-- Six jobs take three ticks to be started. -/
theorem six_jobs_drain :
    let r := (runJobs 20 (List.replicate 6 plainSubmit)).value
    r.jobQueue.length = 6 ∧
      ((r.apply twoStartsTick).value.jobQueue.length = 4) ∧
      ∀ job ∈ (runnerMachine.run r (List.replicate 12 twoStartsTick)).value.jobs,
        job.status.isTerminal := by
  refine ⟨by decide +kernel, by decide +kernel, ?_⟩
  have hcalm : runnerMachine.Along CalmTick
      (runJobs 20 (List.replicate 6 plainSubmit)).value
      (List.replicate 12 twoStartsTick) := by
    decide +kernel
  exact (drained_iff_below_depth (by decide) (List.replicate 6 plainSubmit)
    (List.replicate 12 twoStartsTick) (by decide +kernel) hcalm
    (by decide +kernel)).mpr (by decide +kernel)

end JobRunner

end HeidiKernel
