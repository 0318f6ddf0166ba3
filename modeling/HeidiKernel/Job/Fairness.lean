import HeidiKernel.Job.Admission

namespace HeidiKernel

open HeidiKernel.Transition
open HeidiKernel.Data

/-! Round-robin scanning. While no job becomes running, the scans are rounds
over the running jobs, some of which leave between two rounds. -/

namespace JobRunner

/-- No job has become running, the others kept their order and nothing was
scanned. -/
structure Departs (before after : JobRunner) : Prop where
  ids_nodup : (after.jobs.map Job.id).Nodup
  running : after.runningJobs.Sublist before.runningJobs
  scanCursor : after.scanCursor = before.scanCursor

def departedJobs (before after : JobRunner) : List String :=
  before.runningJobs.filter fun id => id ∉ after.runningJobs

theorem runningJobs_map_sublist {f : Job → Job}
    (hid : ∀ job, (f job).id = job.id)
    (hactive : ∀ job : Job, (f job).isActive → job.isActive)
    (jobs : List Job) :
    (((jobs.map f).filter Job.isActive).map Job.id).Sublist
      ((jobs.filter Job.isActive).map Job.id) := by
  have hkeys : ((jobs.map f).filter Job.isActive).map Job.id =
      (jobs.filter fun job => (f job).isActive).map Job.id := by
    rw [List.filter_map, List.map_map]
    exact List.map_congr_left fun job _ => hid job
  rw [hkeys]
  exact (List.monotone_filter_right jobs hactive).map Job.id

section Scan

variable (nowMs : UInt64) (k : Nat) (scan : String → ScanAnswers)
  {r : JobRunner}

theorem scanCursor_checkJobLimits :
    (r.checkJobLimits nowMs k scan).value.scanCursor =
      RoundRobin.advance k r.scanCursor r.runningJobs.length := by
  unfold checkJobLimits RoundRobin.advance
  by_cases h : r.runningJobs.length = 0
  · simp [h]
  · rw [if_neg h]
    simp only [Traced.value_bind, Traced.value_pure, selectedJobs_eq_window,
      RoundRobin.length_window]

theorem runningJobs_checkJobLimits (hnodup : (r.jobs.map Job.id).Nodup) :
    (r.checkJobLimits nowMs k scan).value.runningJobs.Sublist
      r.runningJobs := by
  have hjobs := jobs_checkJobLimits nowMs k scan r
  rw [Keyed.value_modifyAll (scanJob_id nowMs scan)
    (selectedJobs_nodup k r hnodup) hnodup] at hjobs
  rw [runningJobs, hjobs]
  apply runningJobs_map_sublist
  · intro job
    split
    · exact scanJob_id nowMs scan job
    · rfl
  · intro job hactive
    split at hactive
    · exact Job.isActive_scan _ _ hactive
    · exact hactive

/-- The call scans the selected jobs, each of them once, and no other. -/
structure ScansExactly (nowMs : UInt64) (scan : String → ScanAnswers)
    (selected : List String) (before : JobRunner)
    (call : Traced Event JobRunner) : Prop where
  jobs : call.value.jobs = before.jobs.map fun job =>
    if job.id ∈ selected then (scanJob nowMs scan job).value else job
  events : ∀ job ∈ before.jobs,
    call.events.filter (fun e => e.owner = job.id) =
      if job.id ∈ selected then (scanJob nowMs scan job).events else []
  owner : ∀ e ∈ call.events, e.owner ∈ before.jobs.map Job.id

theorem checkJobLimits_scansExactly (hnodup : (r.jobs.map Job.id).Nodup) :
    ScansExactly nowMs scan (r.selectedJobs k) r
      (r.checkJobLimits nowMs k scan) where
  jobs := by
    rw [jobs_checkJobLimits, Keyed.value_modifyAll (scanJob_id nowMs scan)
      (selectedJobs_nodup k r hnodup) hnodup]
  events := by
    intro job hjob
    rw [events_checkJobLimits]
    exact Keyed.events_modifyAll_filter (scanJob_id nowMs scan) Event.owner
      (fun job => (Job.stays_scan nowMs (scan job.id) job).owner)
      (selectedJobs_nodup k r hnodup) hnodup (selectedJobs_known k r) hjob
  owner := by
    intro e he
    rw [events_checkJobLimits] at he
    exact Keyed.owner_of_mem_events_modifyAll (scanJob_id nowMs scan)
      Event.owner (fun job => (Job.stays_scan nowMs (scan job.id) job).owner)
      hnodup he

end Scan

/-- A call leaves the cursor where it was or moves it below the size of the
table, so adding an index to it never comes near the range of a `size_t`. -/
theorem scanCursor_apply_le {r : JobRunner} (h : r.WellFormed) (op : Op)
    (hcursor : r.scanCursor ≤ r.jobs.length) :
    (r.apply op).value.scanCursor ≤ (r.apply op).value.jobs.length := by
  cases op with
  | submit command limits now layout =>
      have hlength := (h.jobs_submitJob command limits now layout).length_eq
      rw [List.length_append, List.length_singleton] at hlength
      change r.scanCursor ≤
        (r.submitJob command limits now layout).value.2.jobs.length
      rw [hlength]
      exact Nat.le_succ_of_le hcursor
  | cancel id answers =>
      have hlength := congrArg List.length (h.jobs_cancelJob id answers)
      have hsame : (r.cancelJob id answers).value.2.scanCursor =
          r.scanCursor := by
        unfold cancelJob
        cases Keyed.lookup? Job.id id r.jobs <;> rfl
      rw [List.length_map] at hlength
      change (r.cancelJob id answers).value.2.scanCursor ≤
        (r.cancelJob id answers).value.2.jobs.length
      rw [hsame, hlength]
      exact hcursor
  | tick t =>
      have hlength := congrArg List.length (h.jobs_tick t)
      have hstart := congrArg List.length (h.jobs_startPhase_eq_map t)
      rw [List.length_map] at hlength hstart
      change (r.tick t).value.scanCursor ≤ (r.tick t).value.jobs.length
      rw [hlength, tick, Traced.value_bind, scanCursor_checkJobLimits]
      refine RoundRobin.advance_le ?_ ?_
      · rwa [scanCursor_startPhase]
      · rw [← hstart]
        exact length_runningJobs_le _

/-- Cancelling a job between two scans only lets it leave. -/
theorem departs_cancelJob (id : String) (answers : CancelAnswers)
    {r : JobRunner} (hnodup : (r.jobs.map Job.id).Nodup) :
    r.Departs (r.cancelJob id answers).value.2 := by
  unfold cancelJob
  cases Keyed.lookup? Job.id id r.jobs with
  | none => exact ⟨hnodup, List.Sublist.refl _, rfl⟩
  | some _ =>
      have hvalue := Keyed.value_modify (f := Job.cancel answers) (k := id)
        hnodup
      refine ⟨?_, ?_, rfl⟩
      · have hkeys := Keyed.keys_modify (f := Job.cancel answers)
          (fun job => (Job.stays_cancel answers job).same.id) id hnodup
        simpa only [Traced.value_bind, Traced.value_pure, hkeys] using hnodup
      · simp only [Traced.value_bind, Traced.value_pure, runningJobs, hvalue]
        apply runningJobs_map_sublist
        · intro job
          split
          · exact (Job.stays_cancel answers job).same.id
          · rfl
        · intro job hactive
          split at hactive
          · exact Job.isActive_cancel answers hactive
          · exact hactive

end JobRunner

theorem runJobs_scanCursor_le (maxConcurrentJobs : Nat) (ops : List Op) :
    (runJobs maxConcurrentJobs ops).value.scanCursor ≤
      (runJobs maxConcurrentJobs ops).value.jobs.length :=
  (Machine.invariant_run
    (I := fun r : JobRunner => r.WellFormed ∧ r.scanCursor ≤ r.jobs.length)
    (fun _ op h => ⟨h.1.apply_wellFormed op,
      JobRunner.scanCursor_apply_le h.1 op h.2⟩)
    ⟨JobRunner.create_wellFormed maxConcurrentJobs, Nat.le_refl 0⟩ ops).2

/-- A sequence of `m` scans with one budget. The call number `j` is made in
the state `runner j`; between two calls jobs may leave. -/
structure ScanRounds (k m : Nat) (runner : Nat → JobRunner)
    (nowMs : Nat → UInt64) (scan : Nat → String → ScanAnswers) : Prop where
  ids_nodup : ((runner 0).jobs.map Job.id).Nodup
  departs : ∀ j < m,
    ((runner j).checkJobLimits (nowMs j) k (scan j)).value.Departs
      (runner (j + 1))

namespace ScanRounds

variable {k m : Nat} {runner : Nat → JobRunner} {nowMs : Nat → UInt64}
  {scan : Nat → String → ScanAnswers}

theorem nodup (h : ScanRounds k m runner nowMs scan) {j : Nat} (hj : j ≤ m) :
    ((runner j).jobs.map Job.id).Nodup := by
  cases j with
  | zero => exact h.ids_nodup
  | succ j => exact (h.departs j hj).ids_nodup

theorem rounds (h : ScanRounds k m runner nowMs scan) :
    RoundRobin.Rounds k m (fun j => (runner j).runningJobs)
      fun j => (runner j).scanCursor where
  shrinks j hj :=
    (h.departs j hj).running.trans
      (JobRunner.runningJobs_checkJobLimits _ _ _ (h.nodup hj.le))
  advances j hj :=
    (h.departs j hj).scanCursor.trans
      (JobRunner.scanCursor_checkJobLimits _ _ _)

/-- The departed jobs are as many as the running ones have become fewer. -/
theorem length_departedJobs (h : ScanRounds k m runner nowMs scan) :
    (runner 0).runningJobs.length ≤ (runner m).runningJobs.length +
      ((runner 0).departedJobs (runner m)).length := by
  have hnodup := (runner 0).runningJobs_nodup h.ids_nodup
  have hstaying : ((runner 0).runningJobs.filter
      fun id => id ∈ (runner m).runningJobs) ⊆ (runner m).runningJobs := by
    intro id hid
    simpa using (List.mem_filter.mp hid).2
  have hle := (List.subperm_of_subset (hnodup.filter _) hstaying).length_le
  have hsplit := List.length_eq_length_filter_add
    (l := (runner 0).runningJobs)
    fun id => decide (id ∈ (runner m).runningJobs)
  simp only [JobRunner.departedJobs, decide_not]
  omega

end ScanRounds

/-- Every scan visits as many different running jobs as its budget allows, and
a job that keeps running is visited after at most one lap per departed job and
one more. -/
theorem checkJobLimits_starves_nobody {k m : Nat} {runner : Nat → JobRunner}
    {nowMs : Nat → UInt64} {scan : Nat → String → ScanAnswers}
    (hk : 1 ≤ k) (h : ScanRounds k m runner nowMs scan) :
    (∀ j < m,
      ((runner j).selectedJobs k).length =
          min (runner j).runningJobs.length k ∧
        ((runner j).selectedJobs k).Nodup ∧
        (runner j).selectedJobs k ⊆ (runner j).runningJobs ∧
        JobRunner.ScansExactly (nowMs j) (scan j) ((runner j).selectedJobs k)
          (runner j) ((runner j).checkJobLimits (nowMs j) k (scan j))) ∧
      ∀ id, (∀ j ≤ m, id ∈ (runner j).runningJobs) →
        let lap := (runner 0).runningJobs.length ⌈/⌉ k
        let departed := ((runner 0).departedJobs (runner m)).length
        (departed + 1) * lap ≤ m →
          ∃ j < (departed + 1) * lap, id ∈ (runner j).selectedJobs k := by
  refine ⟨fun j hj => ⟨?_, ?_, ?_, ?_⟩, ?_⟩
  · exact RoundRobin.length_window k _ _
  · exact JobRunner.selectedJobs_nodup k _ (h.nodup hj.le)
  · exact JobRunner.selectedJobs_subset k _
  · exact JobRunner.checkJobLimits_scansExactly _ _ _ (h.nodup hj.le)
  · intro id hid lap departed hm
    exact h.rounds.visits hk hid h.length_departedJobs hm

/-- Two running jobs scanned one at a time. The second is cancelled after the
first call. -/
def twoScans : Nat → JobRunner
  | 0 => (runJobs 10 [JobRunner.plainSubmit, JobRunner.plainSubmit,
      .tick JobRunner.plainTick]).value
  | 1 => (((twoScans 0).checkJobLimits 1000 1 fun _ => {}).value.cancelJob
      "job_2" {}).value.2
  | j + 2 => ((twoScans (j + 1)).checkJobLimits 1000 1 fun _ => {}).value

theorem checkJobLimits_starves_nobody_two :
    ∃ j < 4, "job_1" ∈ (twoScans j).selectedJobs 1 := by
  have hrounds : ScanRounds 1 4 twoScans (fun _ => 1000) fun _ _ => {} := by
    refine ⟨by decide +kernel, fun j hj => ?_⟩
    cases j with
    | zero => exact JobRunner.departs_cancelJob "job_2" {} (by decide +kernel)
    | succ j =>
        have hnodup : ∀ j < 3, ((twoScans (j + 2)).jobs.map Job.id).Nodup := by
          decide +kernel
        exact ⟨hnodup j (by omega), List.Sublist.refl _, rfl⟩
  have hstays : ∀ j ≤ 4, "job_1" ∈ (twoScans j).runningJobs := by
    decide +kernel
  exact (checkJobLimits_starves_nobody (le_refl 1) hrounds).2 "job_1" hstays
    (by decide +kernel)

end HeidiKernel
