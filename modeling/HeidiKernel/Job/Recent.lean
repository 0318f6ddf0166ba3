import HeidiKernel.Data.Descending
import HeidiKernel.Job.Queue
import Mathlib.Data.String.Basic

namespace HeidiKernel

open HeidiKernel.Data
open HeidiKernel.Transition

/-! The most recent jobs: what the runner lists as such, and what they are in
the order of the submissions. -/

def Op.submittedAt? : Op → Option SystemTime
  | .submit _ _ now _ => some now
  | .cancel .. | .tick _ => none

/-- What the system clock has shown at the submissions. -/
def submitTimes (ops : List Op) : List SystemTime :=
  ops.filterMap Op.submittedAt?

namespace JobRunner

def getRecentJobs (sorting : Descending Job.createdAt) (limit : Nat)
    (r : JobRunner) : List Job :=
  let allJobs := sorting.sort r.jobs
  if allJobs.length > limit then allJobs.take limit else allJobs

theorem getRecentJobs_eq (sorting : Descending Job.createdAt) (limit : Nat)
    (r : JobRunner) :
    r.getRecentJobs sorting limit = (sorting.sort r.jobs).take limit := by
  unfold getRecentJobs
  dsimp only
  split_ifs with hlong
  · rfl
  · exact (List.take_of_length_le (Nat.le_of_not_lt hlong)).symm

/-! Every job keeps the time of its submission. -/

def stamp (job : Job) : String × SystemTime := (job.id, job.createdAt)

theorem stamp_run (actions : List JobAction) (job : Job) :
    stamp (jobMachine.run job actions).value = stamp job := by
  have hsame := (Job.stays_run actions job).same
  exact Prod.ext hsame.id hsame.createdAt

structure Stamped (r : JobRunner) (times : List SystemTime) : Prop where
  counter : times.length = r.jobCounter
  jobs : (r.jobs.map stamp).Perm ((drawnIds r.jobCounter).zip times)

theorem length_drawnIds (k : Nat) : (drawnIds k).length = k := by
  simp [drawnIds]

namespace Stamped

variable {r r' : JobRunner} {times : List SystemTime}

theorem acted (h : Stamped r times) {actions : String → List JobAction}
    (hcounter : r'.jobCounter = r.jobCounter)
    (hjobs : r'.jobs = r.jobs.map fun job =>
      (jobMachine.run job (actions job.id)).value) : Stamped r' times where
  counter := h.counter.trans hcounter.symm
  jobs := by
    rw [hjobs, hcounter, List.map_map]
    have hsame : stamp ∘ (fun job =>
        (jobMachine.run job (actions job.id)).value) = stamp :=
      funext fun job => stamp_run _ job
    rw [hsame]
    exact h.jobs

theorem submitJob (h : Stamped r times) (hwf : r.WellFormed)
    (command : String) (limits : JobLimits) (now : SystemTime)
    (layout : Layout) :
    Stamped (r.submitJob command limits now layout).value.2
      (times ++ [now]) where
  counter := by
    rw [List.length_append, h.counter]
    rfl
  jobs := by
    have hlength : (drawnIds r.jobCounter).length = times.length :=
      (length_drawnIds _).trans h.counter.symm
    have hcounter : (r.submitJob command limits now layout).value.2.jobCounter =
        r.jobCounter + 1 := rfl
    have hdrawn : drawnIds (r.jobCounter + 1) =
        drawnIds r.jobCounter ++ [jobId (r.jobCounter + 1)] := by
      simp [drawnIds, List.range_succ]
    refine ((hwf.jobs_submitJob command limits now layout).map stamp).trans ?_
    rw [hcounter, hdrawn, List.zip_append hlength, List.map_append]
    exact h.jobs.append_right _

theorem apply (h : Stamped r times) (hwf : r.WellFormed) (op : Op) :
    Stamped (r.apply op).value (times ++ op.submittedAt?.toList) := by
  cases op with
  | submit command limits now layout =>
      exact h.submitJob hwf command limits now layout
  | cancel id answers =>
      rw [Op.submittedAt?, Option.toList_none, List.append_nil]
      exact h.acted (jobCounter_cancelJob id answers r)
        (hwf.jobs_cancelJob id answers)
  | tick t =>
      rw [Op.submittedAt?, Option.toList_none, List.append_nil]
      exact h.acted (jobCounter_tick t r) (hwf.jobs_tick t)

theorem run (maxConcurrentJobs : Nat) (ops : List Op) :
    Stamped (runJobs maxConcurrentJobs ops).value (submitTimes ops) := by
  induction ops using List.reverseRecOn with
  | nil => exact ⟨rfl, List.Perm.nil⟩
  | append_singleton ops op ih =>
      have hnext := ih.apply (runJobs_wellFormed maxConcurrentJobs ops) op
      have htimes : submitTimes (ops ++ [op]) =
          submitTimes ops ++ op.submittedAt?.toList := by
        rw [submitTimes, List.filterMap_append]
        cases hop : op.submittedAt? <;> simp [submitTimes, hop]
      rw [runJobs, Machine.value_run_concat, htimes]
      exact hnext

theorem length (h : Stamped r times) : r.jobs.length = r.jobCounter := by
  have hlength := h.jobs.length_eq
  rwa [List.length_map, List.length_zip, length_drawnIds, h.counter,
    Nat.min_self] at hlength

end Stamped

/-- The listing of `limit` jobs: no other job is more recent than they. -/
structure Recent (r : JobRunner) (limit : Nat) (recent : List Job) : Prop where
  length : recent.length = min limit r.jobs.length
  ids_nodup : (recent.map Job.id).Nodup
  known : ∀ job ∈ recent, r.getJobStatus job.id = some job
  sorted : recent.Pairwise fun a b => b.createdAt ≤ a.createdAt
  newest : ∀ job ∈ recent, ∀ other ∈ r.jobs, other ∉ recent →
    other.createdAt ≤ job.createdAt

theorem WellFormed.recent (h : r.WellFormed)
    (sorting : Descending Job.createdAt) (limit : Nat) :
    Recent r limit (r.getRecentJobs sorting limit) := by
  have hperm := sorting.perm r.jobs
  have hfirst : ((sorting.sort r.jobs).take limit).Sublist
      (sorting.sort r.jobs) := List.take_sublist _ _
  rw [getRecentJobs_eq]
  exact {
    length := by rw [List.length_take, hperm.length_eq]
    ids_nodup :=
      ((hperm.map Job.id).nodup_iff.mpr h.ids_nodup).sublist (hfirst.map Job.id)
    known := fun job hjob => Keyed.lookup?_of_mem h.ids_nodup
      (hperm.mem_iff.mp (hfirst.subset hjob))
    sorted := (sorting.sorted r.jobs).sublist hfirst
    newest := fun job hjob other hother hout =>
      sorting.key_le_of_mem_take hjob hother hout }

/-! The order of the submissions is that of the times exactly if no sort has a
choice. -/

namespace Stamped

variable {r : JobRunner} {times : List SystemTime} (h : Stamped r times)

include h

theorem ids_zip : ((drawnIds r.jobCounter).zip times).map Prod.fst =
    drawnIds r.jobCounter := by
  refine List.map_fst_zip ?_
  rw [length_drawnIds, h.counter]

theorem times_zip :
    ((drawnIds r.jobCounter).zip times).map Prod.snd = times := by
  refine List.map_snd_zip ?_
  rw [length_drawnIds, h.counter]

theorem perm_sort (sorting : Descending Job.createdAt) :
    ((sorting.sort r.jobs).map stamp).Perm
      ((drawnIds r.jobCounter).zip times).reverse :=
  (((sorting.perm r.jobs).map stamp).trans h.jobs).trans
    (List.reverse_perm _).symm

theorem rising_of_unique (hwf : r.WellFormed)
    (hunique : ∀ sorting : Descending Job.createdAt,
      (sorting.sort r.jobs).map Job.id = (drawnIds r.jobCounter).reverse) :
    times.Pairwise (· < ·) := by
  let sorting := Descending.breakTies Job.createdAt Job.id
  have hfirst : ((sorting.sort r.jobs).map stamp).map Prod.fst =
      ((drawnIds r.jobCounter).zip times).reverse.map Prod.fst := by
    rw [List.map_map, List.map_reverse, h.ids_zip]
    exact hunique sorting
  have hnodup : (((sorting.sort r.jobs).map stamp).map Prod.fst).Nodup := by
    rw [List.map_map]
    exact ((sorting.perm r.jobs).map Job.id).nodup_iff.mpr hwf.ids_nodup
  have heq : (sorting.sort r.jobs).map stamp =
      ((drawnIds r.jobCounter).zip times).reverse :=
    Keyed.eq_of_perm (h.perm_sort sorting) hfirst hnodup
  have hstrict := Descending.strict_of_unique hwf.ids_nodup hunique sorting
  have hfalling : (((sorting.sort r.jobs).map stamp).map Prod.snd).Pairwise
      (· > ·) := by
    rw [List.map_map]
    exact hstrict.map _ fun _ _ hlt => hlt
  rw [heq, List.map_reverse, h.times_zip] at hfalling
  exact List.pairwise_reverse.mp hfalling

theorem ids_sort (hrising : times.Pairwise (· < ·))
    (sorting : Descending Job.createdAt) :
    (sorting.sort r.jobs).map Job.id = (drawnIds r.jobCounter).reverse := by
  have heq : (sorting.sort r.jobs).map stamp =
      ((drawnIds r.jobCounter).zip times).reverse := by
    refine Descending.eq_of_strict Prod.snd (h.perm_sort sorting) ?_ ?_
    · exact (sorting.sorted r.jobs).map _ fun _ _ hle => hle
    · rw [List.pairwise_reverse]
      rw [← h.times_zip] at hrising
      exact List.pairwise_map.mp hrising
  have hfirst := congrArg (List.map Prod.fst) heq
  rw [List.map_map, List.map_reverse, h.ids_zip] at hfirst
  exact hfirst

end Stamped

/-- The jobs that are listed are the newest, and they are the last ones that
were submitted, the last in front, exactly if the system clock has gone on from
each submission to the next. -/
theorem recent_jobs (maxConcurrentJobs : Nat) (ops : List Op) :
    let ran := runJobs maxConcurrentJobs ops
    (∀ sorting limit, Recent ran.value limit
        (ran.value.getRecentJobs sorting limit)) ∧
      ((∀ sorting limit, (ran.value.getRecentJobs sorting limit).map Job.id =
          (submittedJobs ran.events).reverse.take limit) ↔
        (submitTimes ops).Pairwise (· < ·)) := by
  intro ran
  have hwf : ran.value.WellFormed := runJobs_wellFormed maxConcurrentJobs ops
  have hstamped : Stamped ran.value (submitTimes ops) :=
    .run maxConcurrentJobs ops
  have hdrawn : submittedJobs ran.events = drawnIds ran.value.jobCounter :=
    (runJobs_accounts maxConcurrentJobs ops).drawn
  refine ⟨hwf.recent, ?_⟩
  rw [hdrawn]
  constructor
  · intro h
    refine hstamped.rising_of_unique hwf fun sorting => ?_
    have hall := h sorting ran.value.jobs.length
    rwa [getRecentJobs_eq,
      List.take_of_length_le (sorting.perm _).length_eq.le,
      List.take_of_length_le (by simp [length_drawnIds, hstamped.length])]
      at hall
  · intro hrising sorting limit
    rw [getRecentJobs_eq, List.map_take, hstamped.ids_sort hrising sorting]

end JobRunner

end HeidiKernel
