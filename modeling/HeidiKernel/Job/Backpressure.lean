import HeidiKernel.Job.Admission

namespace HeidiKernel

open HeidiKernel.Transition

/-! How many jobs wait. Only submissions add a QUEUED job, and none of them
asks the governor for room: its depth limit is first looked at by a tick. -/

namespace JobRunner

namespace WellFormed

variable {r : JobRunner} (h : r.WellFormed)

include h

/-- The jobs that are still QUEUED after their actions were so before. -/
theorem countP_isQueued_actions_le (op : Op) :
    (r.jobs.map fun job =>
        (jobMachine.run job (r.actionsOn op job.id)).value).countP
      Job.isQueued ≤ r.queuedCount := by
  rw [queuedCount, List.countP_map]
  apply List.countP_mono_left
  intro job hjob hqueued
  have hstatus : (jobMachine.run job (r.actionsOn op job.id)).value.status =
      .queued := by
    simpa [Job.isQueued] using hqueued
  have hnil := eq_nil_of_status_run_eq_queued (h.guard_along op hjob) hstatus
  simpa [hnil] using hqueued

theorem queuedCount_tick_le (t : Tick) :
    (r.tick t).value.queuedCount ≤ r.queuedCount := by
  rw [queuedCount, h.jobs_tick t]
  exact h.countP_isQueued_actions_le (.tick t)

theorem queuedCount_cancelJob_le (id : String) (answers : CancelAnswers) :
    (r.cancelJob id answers).value.2.queuedCount ≤ r.queuedCount := by
  rw [queuedCount, h.jobs_cancelJob id answers]
  exact h.countP_isQueued_actions_le (.cancel id answers)

end WellFormed

/-- A submission is made while the queue is below the depth the governor
allows. -/
def SubmitsBelowDepth (r : JobRunner) : Op → Prop
  | .submit .. => (r.queuedCount : Int) < r.governor.policy.maxQueueDepth
  | .cancel .. | .tick _ => True

def WithinDepth (r : JobRunner) : Prop :=
  (r.queuedCount : Int) ≤ r.governor.policy.maxQueueDepth

theorem withinDepth_apply_iff {r : JobRunner} (hwf : r.WellFormed)
    (hwithin : r.WithinDepth) (op : Op) :
    (r.apply op).value.WithinDepth ↔ r.SubmitsBelowDepth op := by
  have hgovernor := (frame_apply op r).2
  unfold WithinDepth at hwithin ⊢
  rw [hgovernor]
  cases op with
  | submit command limits now layout =>
      have hcount := hwf.queuedCount_submitJob command limits now layout
      have happly : (r.apply (.submit command limits now layout)).value =
          (r.submitJob command limits now layout).value.2 := rfl
      rw [happly, hcount]
      exact Int.natCast_succ r.queuedCount ▸ Int.add_one_le_iff
  | cancel id answers =>
      have hcount := hwf.queuedCount_cancelJob_le id answers
      exact ⟨fun _ => trivial, fun _ => (Int.ofNat_le.mpr hcount).trans hwithin⟩
  | tick t =>
      have hcount := hwf.queuedCount_tick_le t
      exact ⟨fun _ => trivial, fun _ => (Int.ofNat_le.mpr hcount).trans hwithin⟩

/-- Between any two calls the queue is within its depth, and a submission that
would exceed it changes neither the table nor the queue. -/
structure BoundedQueue (maxConcurrentJobs : Nat) (ops : List Op) : Prop where
  bounded : ∀ before, before <+: ops →
    (runJobs maxConcurrentJobs before).value.WithinDepth
  refused : ∀ before command limits now layout,
    before ++ [.submit command limits now layout] <+: ops →
    let r := (runJobs maxConcurrentJobs before).value
    r.governor.policy.maxQueueDepth < r.queuedCount + 1 →
    let r' := (r.submitJob command limits now layout).value.2
    r'.jobs = r.jobs ∧ r'.jobQueue = r.jobQueue

/-- The queue is bounded along exactly the runs that submit only below the
depth: the runner itself refuses nothing. -/
theorem boundedQueue_iff (maxConcurrentJobs : Nat) (ops : List Op) :
    BoundedQueue maxConcurrentJobs ops ↔
      runnerMachine.Along SubmitsBelowDepth (create maxConcurrentJobs)
        ops := by
  have hinit : (create maxConcurrentJobs).WellFormed ∧
      (create maxConcurrentJobs).WithinDepth :=
    ⟨create_wellFormed maxConcurrentJobs, by
      simp [WithinDepth, create, queuedCount]⟩
  have hprefixes : (∀ before, before <+: ops →
      (runJobs maxConcurrentJobs before).value.WellFormed ∧
        (runJobs maxConcurrentJobs before).value.WithinDepth) ↔
      runnerMachine.Along SubmitsBelowDepth (create maxConcurrentJobs) ops :=
    Machine.forall_prefix_iff_along (m := runnerMachine)
      (I := fun r => r.WellFormed ∧ r.WithinDepth)
      (fun r op hI =>
        ⟨fun hnext => (withinDepth_apply_iff hI.1 hI.2 op).mp hnext.2,
          fun hop => ⟨hI.1.apply_wellFormed op,
            (withinDepth_apply_iff hI.1 hI.2 op).mpr hop⟩⟩) hinit
  rw [← hprefixes]
  constructor
  · intro h before hbefore
    exact ⟨runJobs_wellFormed maxConcurrentJobs before,
      h.bounded before hbefore⟩
  · intro h
    refine ⟨fun before hbefore => (h before hbefore).2, ?_⟩
    intro before command limits now layout hsubmit r hfull
    obtain ⟨after, hafter⟩ := hsubmit
    have hroom : (r.queuedCount : Int) < r.governor.policy.maxQueueDepth :=
      Machine.along_iff_forall_split.mp (hprefixes.mp h) before
        (.submit command limits now layout) after (by simp [← hafter])
    omega

theorem submissions_overflow :
    ¬ ∀ maxConcurrentJobs ops, BoundedQueue maxConcurrentJobs ops := by
  intro h
  have hbound := (h 10 (List.replicate 101 plainSubmit)).bounded _
    List.prefix_rfl
  rw [WithinDepth, (submissions_counts 10 101).queued,
    (runJobs_frame 10 _).2] at hbound
  exact absurd hbound (by decide)

end JobRunner

end HeidiKernel
