import HeidiKernel.Job.Lifecycle
import HeidiKernel.Job.Queue

namespace HeidiKernel

open HeidiKernel.Transition
open HeidiKernel.Data

/-! The start budget of a tick. The loop counts its successes, so a failed
spawn takes a job off the queue without using up any of the budget. -/

namespace JobRunner

/-- The jobs a tick takes out of QUEUED. -/
def leavingJobs (t : Tick) (r : JobRunner) : List Job :=
  r.jobs.filter fun job =>
    job.isQueued && (r.tick t).value.statusOf job.id != some .queued

/-- A tick hands no more jobs to the spawner than it may start, no others leave
QUEUED, and what is behind them stays in the queue. -/
structure BoundedStarts (t : Tick) (r : JobRunner) : Prop where
  calls : (spawnedJobs (r.tick t).events).length ≤ t.maxStartsPerTick
  leaving : (r.leavingJobs t).length ≤ t.maxStartsPerTick
  kept : r.jobQueue.drop t.maxStartsPerTick <:+ (r.tick t).value.jobQueue

/-- The spawns that are due in the tick, one for each start, are enough to use
up the start budget or the free places. -/
def SpawnsFillBudget (t : Tick) (r : JobRunner) : Prop :=
  r.Admits t → t.maxStartsPerTick < r.jobQueue.length →
    r.startBudget t ≤
      (r.jobQueue.take t.maxStartsPerTick).countP (succeeds t)

section Tick

variable {t : Tick} {r : JobRunner}

theorem length_startedJobs_le_iff :
    (r.startedJobs t).length ≤ t.maxStartsPerTick ↔ r.SpawnsFillBudget t := by
  unfold startedJobs SpawnsFillBudget
  by_cases hadmits : r.Admits t
  · have hserved := servedCount_le_length (succeeds t) (r.startBudget t)
      r.jobQueue
    rw [if_pos hadmits, List.length_take, Nat.min_eq_left hserved,
      servedCount_le_iff]
    exact ⟨fun h _ => h, fun h => h hadmits⟩
  · simp [hadmits]

/-- While every spawn fails, an admitted tick goes through the whole queue. -/
theorem startedJobs_of_failing (hadmits : r.Admits t)
    (hbudget : 0 < r.startBudget t)
    (hfail : ∀ id ∈ r.jobQueue, succeeds t id = false) :
    r.startedJobs t = r.jobQueue := by
  have hserved : r.jobQueue.length ≤
      servedCount (succeeds t) (r.startBudget t) r.jobQueue := by
    by_contra hlt
    have hnone : (r.jobQueue.take (servedCount (succeeds t)
        (r.startBudget t) r.jobQueue)).countP (succeeds t) = 0 := by
      rw [List.countP_eq_zero]
      intro id hid
      simp [hfail id (List.mem_of_mem_take hid)]
    have hused := (servedCount_le_iff (succeeds t)).mp le_rfl
      (Nat.not_le.mp hlt)
    omega
  rw [startedJobs, if_pos hadmits, List.take_of_length_le hserved]

end Tick

namespace WellFormed

variable {r : JobRunner} (h : r.WellFormed) (t : Tick)

include h

/-- A QUEUED job that is not started stays as it is. -/
theorem statusOf_tick_of_not_started {job : Job} (hjob : job ∈ r.jobs)
    (hqueued : job.status = .queued) (hstart : job.id ∉ r.startedJobs t) :
    (r.tick t).value.statusOf job.id = some .queued := by
  have hscan : job.id ∉ r.scannedJobs t := by
    intro hscan
    have hrunning := h.running_of_mem_scannedJobs t hjob hscan
    rw [if_neg hstart, hqueued] at hrunning
    cases hrunning
  have hmem : job ∈ (r.tick t).value.jobs := by
    rw [h.jobs_tick t]
    refine List.mem_map.mpr ⟨job, hjob, ?_⟩
    simp [tickActions, hstart, hscan]
  have hfind := Keyed.lookup?_of_mem (h.tick_wellFormed t).ids_nodup hmem
  rw [statusOf, getJobStatus, hfind, Option.map_some, hqueued]

theorem length_leavingJobs_le :
    (r.leavingJobs t).length ≤ (r.startedJobs t).length := by
  have hids : ((r.leavingJobs t).map Job.id).Nodup :=
    h.ids_nodup.sublist (List.filter_sublist.map Job.id)
  have hsub : (r.leavingJobs t).map Job.id ⊆ r.startedJobs t := by
    intro id hid
    obtain ⟨job, hleaving, rfl⟩ := List.mem_map.mp hid
    obtain ⟨hjob, hstatus⟩ := List.mem_filter.mp hleaving
    simp only [Job.isQueued, Bool.and_eq_true, decide_eq_true_eq,
      bne_iff_ne] at hstatus
    by_contra hstart
    exact hstatus.2 (h.statusOf_tick_of_not_started t hjob hstatus.1 hstart)
  simpa using (List.subperm_of_subset hids hsub).length_le

theorem boundedStarts_iff_spawnsFillBudget :
    r.BoundedStarts t ↔ r.SpawnsFillBudget t := by
  rw [← length_startedJobs_le_iff]
  constructor
  · intro hbounded
    rw [← h.spawnedJobs_tick t]
    exact hbounded.calls
  · intro hstarted
    refine ⟨?_, (h.length_leavingJobs_le t).trans hstarted, ?_⟩
    · rwa [h.spawnedJobs_tick t]
    · rw [jobQueue_tick t, ← startedJobs_append_jobQueue t r,
        List.drop_append, List.drop_eq_nil_of_le hstarted, List.nil_append]
      exact List.drop_suffix _ _

end WellFormed

def StartsWithinBudget (r : JobRunner) : Op → Prop
  | .tick t => r.BoundedStarts t
  | .submit .. | .cancel .. => True

def FillsBudget (r : JobRunner) : Op → Prop
  | .tick t => r.SpawnsFillBudget t
  | .submit .. | .cancel .. => True

/-- The ticks of a run keep to their start budgets exactly if, in each of them,
the spawns of as many jobs as it may start use up the budget, or the queue is
no longer than that, or the governor admits none. -/
theorem startsWithinBudget_iff (maxConcurrentJobs : Nat) (ops : List Op) :
    runnerMachine.Along StartsWithinBudget (create maxConcurrentJobs) ops ↔
      runnerMachine.Along FillsBudget (create maxConcurrentJobs) ops := by
  refine Machine.along_congr (I := WellFormed) (C := fun _ => True)
    (fun _ op h _ => h.apply_wellFormed op) ?_
    (create_wellFormed maxConcurrentJobs) (fun _ _ => trivial)
  intro r op h _
  cases op with
  | submit command limits now layout => exact Iff.rfl
  | cancel id answers => exact Iff.rfl
  | tick t => exact h.boundedStarts_iff_spawnsFillBudget t

/-- A tick in which every `fork` fails and which may start one job. -/
def failingTick : Tick :=
  { plainTick with
    maxStartsPerTick := 1
    spawn := fun _ => .failed [] 0 }

theorem failingTick_exceeds_budget :
    ¬ ∀ maxConcurrentJobs ops, runnerMachine.Along StartsWithinBudget
      (create maxConcurrentJobs) ops := by
  intro h
  have hbounded : (runJobs 10 [plainSubmit, plainSubmit]).value.BoundedStarts
      failingTick :=
    (h 10 [plainSubmit, plainSubmit, .tick failingTick]).2.2.1
  have hcalls := hbounded.calls
  revert hcalls
  decide +kernel

end JobRunner

end HeidiKernel
