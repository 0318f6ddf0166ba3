import HeidiKernel.Job.Lifecycle
import HeidiKernel.Job.Pipe

namespace HeidiKernel

open HeidiKernel.Transition

/-! When the log of a reaped job is complete. A scan reads each pipe once and
closes both when it finds the leader gone, whatever they still hold. -/

namespace JobRunner

section Tick

variable {r : JobRunner} (t : Tick) (job : Job)

theorem readBytes_run_tickActions (stream : Stream) :
    readBytes stream (jobMachine.run job (r.tickActions t job.id)).events =
      if job.id ∈ r.scannedJobs t ∧ (r.afterStart t job).fd stream ≠ -1 then
        ((t.scan job.id).read stream).getD []
      else
        [] := by
  have hstarted : readBytes stream
      (if job.id ∈ r.startedJobs t then
        [.spawnCalled job.id (t.spawn job.id)]
      else
        []) = [] := by
    split <;> rfl
  rw [events_run_tickActions, readBytes_append, hstarted, List.nil_append]
  by_cases hscan : job.id ∈ r.scannedJobs t
  · simp [hscan, Job.readBytes_scan]
  · simp [hscan]

theorem collectedLeaders_run_tickActions :
    collectedLeaders (jobMachine.run job (r.tickActions t job.id)).events =
      if job.id ∈ r.scannedJobs t then
        collectedLeaders
          ((r.afterStart t job).scan t.nowMs (t.scan job.id)).events
      else
        [] := by
  have hstarted : collectedLeaders
      (if job.id ∈ r.startedJobs t then
        [.spawnCalled job.id (t.spawn job.id)]
      else
        []) = [] := by
    split <;> rfl
  rw [events_run_tickActions, collectedLeaders_append, hstarted,
    List.nil_append]
  split <;> rfl

/-- Only the scan of a tick collects the leader of a job. -/
theorem scanned_of_collected {call : Op}
    (hcollected : collectedLeaders
      (jobMachine.run job (r.actionsOn call job.id)).events ≠ []) :
    ∃ t, call = .tick t ∧ job.id ∈ r.scannedJobs t ∧
      (jobMachine.run job (r.actionsOn call job.id)).value =
        ((r.afterStart t job).scan t.nowMs (t.scan job.id)).value ∧
      (((r.afterStart t job).drainBoth (t.scan job.id)).value.collected?
        (t.scan job.id)).isSome := by
  cases call with
  | submit command limits now layout => exact absurd rfl hcollected
  | cancel id answers =>
      refine absurd ?_ hcollected
      simp only [actionsOn]
      split
      · simp [jobMachine, Job.act, Job.collectedLeaders_cancel]
      · rfl
  | tick t =>
      rw [actionsOn, collectedLeaders_run_tickActions] at hcollected
      by_cases hscan : job.id ∈ r.scannedJobs t
      · rw [if_pos hscan, Job.collectedLeaders_scan] at hcollected
        refine ⟨t, rfl, hscan, ?_, ?_⟩
        · rw [actionsOn, value_run_tickActions, if_pos hscan]
        · by_contra hnone
          exact hcollected (if_neg hnone)
      · rw [if_neg hscan] at hcollected
        exact absurd rfl hcollected

end Tick

end JobRunner

namespace PipedRunner

/-- The runner of a piped run is in a state of an ordinary run, and its pipes
hold what the reads have taken. -/
structure Coupled (maxConcurrentJobs : Nat) (s : PipedRunner)
    (history : List Event) : Prop where
  run : ∃ ops, runJobs maxConcurrentJobs ops = ⟨s.runner, history⟩
  sound : ∀ id, (s.world id).Sound
  delivered : ∀ id stream,
    (readBytes stream (ownedBy id history)).IsPrefix
      ((s.world id).pipe stream).written
  taken : ∀ id stream, ((s.world id).pipe stream).taken =
    (readBytes stream (ownedBy id history)).length

namespace Coupled

variable {maxConcurrentJobs : Nat} {s : PipedRunner} {history : List Event}
  (h : Coupled maxConcurrentJobs s history)

include h

theorem captures : JobRunner.Tracks Captures s.runner history := by
  obtain ⟨ops, hrun⟩ := h.run
  have htracks := JobRunner.runJobs_captures maxConcurrentJobs ops
  rwa [hrun] at htracks

theorem wellFormed : s.runner.WellFormed :=
  h.captures.accounts.wellFormed

theorem run_step (op : PipedOp) :
    ∃ ops, runJobs maxConcurrentJobs ops =
      ⟨(s.step op).value.runner, history ++ (s.step op).events⟩ := by
  obtain ⟨ops, hrun⟩ := h.run
  unfold step
  cases hcall : s.call? op with
  | none => exact ⟨ops, by simpa using hrun⟩
  | some call =>
      refine ⟨ops ++ [call], ?_⟩
      ext1
      · rw [JobRunner.apply_after, hrun]
      · exact (Machine.events_run_concat ..).trans
          (by rw [show runnerMachine.run _ ops = _ from hrun]; rfl)

theorem spawned (t : Tick) (id : String) (stream : Stream) :
    (readBytes stream (ownedBy id history)).IsPrefix
        ((s.spawnedWorld t id).pipe stream).written ∧
      ((s.spawnedWorld t id).pipe stream).taken =
        (readBytes stream (ownedBy id history)).length ∧
      (s.spawnedWorld t id).Sound := by
  unfold spawnedWorld
  split
  · rename_i hstart
    have hwf := h.wellFormed
    have hqueue := JobRunner.startedJobs_subset t s.runner hstart.1
    obtain ⟨job, hjob, rfl⟩ := List.mem_map.mp (hwf.queue_known hqueue)
    have hfresh : job.id ∉ spawnedJobs history := by
      have hnodup := JobRunner.drawnIds_nodup s.runner.jobCounter
      rw [← h.captures.accounts.drawn, ← h.captures.accounts.spawned,
        List.nodup_append] at hnodup
      exact fun hspawned => hnodup.2.2 _ hspawned _ hqueue rfl
    have hunread := (h.captures.jobs job hjob).unread
      (spawnAnswers_ownedBy_eq_nil hfresh) stream
    rw [hunread]
    exact ⟨List.nil_prefix, rfl, fun exit hexit => by contradiction⟩
  · exact ⟨h.delivered id stream, h.taken id stream, h.sound id⟩

/-- Reading a pipe keeps what has been delivered a prefix of what has been
written. -/
theorem read_extends (t : Tick) (during : Interference) (id : String)
    (stream : Stream) :
    (readBytes stream (ownedBy id history) ++
      ((s.spawnedWorld t id).pipeAt during stream).read.getD []).IsPrefix
        (((s.spawnedWorld t id).acts during.all).pipe stream).written := by
  obtain ⟨hinitial, htaken, _⟩ := h.spawned t id stream
  have hgrows := (s.spawnedWorld t id).grows_acts (during.beforeRead stream)
  refine List.IsPrefix.trans ?_
    ((s.spawnedWorld t id).pipeAt_grows during stream)
  obtain ⟨rest, hrest⟩ := hinitial.trans (hgrows.written stream)
  have htaken' : ((s.spawnedWorld t id).pipeAt during stream).taken =
      (readBytes stream (ownedBy id history)).length :=
    (hgrows.taken stream).trans htaken
  have hwritten : ((s.spawnedWorld t id).pipeAt during stream).written =
      readBytes stream (ownedBy id history) ++ rest := hrest.symm
  rw [Pipe.getD_read, htaken', hwritten, List.drop_left]
  exact (List.prefix_append_right_inj _).mpr (List.take_prefix _ _)

theorem readBytes_tick (t : Tick) (during : String → Interference)
    (id : String) (stream : Stream) :
    readBytes stream (ownedBy id
      (s.runner.apply (.tick (s.answeredTick t during))).events) = [] ∨
    readBytes stream (ownedBy id
      (s.runner.apply (.tick (s.answeredTick t during))).events) =
        ((s.spawnedWorld t id).pipeAt (during id) stream).read.getD [] := by
  have hwf := h.wellFormed
  by_cases hknown : id ∈ s.runner.jobs.map Job.id
  · obtain ⟨job, hjob, rfl⟩ := List.mem_map.mp hknown
    rw [hwf.ownedBy_apply _ hjob, JobRunner.actionsOn,
      JobRunner.readBytes_run_tickActions]
    split
    · exact .inr (by rw [scan_answeredTick, Proc.read_answers])
    · exact .inl rfl
  · refine .inl ?_
    have hnone : ownedBy id
        (s.runner.apply (.tick (s.answeredTick t during))).events = [] := by
      rw [ownedBy, List.filter_eq_nil_iff]
      intro e he howner
      have hmem := hwf.owner_mem_apply _ he
      rcases hwf.jobs_apply (.tick (s.answeredTick t during)) with
        ⟨_, _, _, _, hsubmit, _⟩ | hmap
      · cases hsubmit
      · rw [of_decide_eq_true howner, hmap, List.map_map] at hmem
        obtain ⟨job, hjob, hid⟩ := List.mem_map.mp hmem
        exact hknown (List.mem_map.mpr
          ⟨job, hjob, (Job.id_run _ job).symm.trans hid⟩)
    rw [hnone]
    rfl

theorem step_env (id : String) (action : ProcAction) :
    Coupled maxConcurrentJobs (s.step (.env id action)).value
      (history ++ (s.step (.env id action)).events) := by
  have hgrows := (s.world id).grows_act action
  refine ⟨h.run_step _, fun other => ?_, fun other stream => ?_,
    fun other stream => ?_⟩ <;>
    simp only [PipedRunner.step, call?, nextWorld, Traced.value_pure,
      Traced.events_pure, List.append_nil] <;>
    by_cases hother : other = id
  · subst hother
    simpa using (h.sound other).act action
  · simpa [hother] using h.sound other
  · subst hother
    simpa using (h.delivered other stream).trans (hgrows.written stream)
  · simpa [hother] using h.delivered other stream
  · subst hother
    simpa using (hgrows.taken stream).trans (h.taken other stream)
  · simpa [hother] using h.taken other stream

/-- A call that reads no pipe leaves the processes as they are. -/
theorem step_unread {op : PipedOp} (hworld : (s.step op).value.world = s.world)
    (hread : ∀ stream, readBytes stream (s.step op).events = []) :
    Coupled maxConcurrentJobs (s.step op).value
      (history ++ (s.step op).events) := by
  have howned : ∀ id stream,
      readBytes stream (ownedBy id (s.step op).events) = [] := by
    intro id stream
    have hnone := hread stream
    rw [readBytes, List.flatMap_eq_nil_iff] at hnone ⊢
    exact fun e he => hnone e (mem_ownedBy.mp he).1
  refine ⟨h.run_step op, fun id => ?_, fun id stream => ?_,
    fun id stream => ?_⟩ <;>
    rw [hworld]
  · exact h.sound id
  · rw [ownedBy_append, readBytes_append, howned, List.append_nil]
    exact h.delivered id stream
  · rw [ownedBy_append, readBytes_append, howned, List.append_nil]
    exact h.taken id stream

theorem step_tick (t : Tick) (during : String → Interference) :
    Coupled maxConcurrentJobs (s.step (.tick t during)).value
      (history ++ (s.step (.tick t during)).events) := by
  refine ⟨h.run_step _, fun id => ?_, fun id stream => ?_,
    fun id stream => ?_⟩ <;>
    simp only [PipedRunner.step, call?, nextWorld, ownedBy_append,
      readBytes_append, Proc.consume]
  · exact ((h.spawned t id .stdout).2.2).acts (during id).all
  · obtain ⟨hinitial, _, _⟩ := h.spawned t id stream
    have hgrows := (s.spawnedWorld t id).grows_acts (during id).all
    rcases h.readBytes_tick t during id stream with hnone | hread
    · rw [hnone, List.append_nil]
      exact hinitial.trans (hgrows.written stream)
    · rw [hread]
      exact h.read_extends t (during id) id stream
  · obtain ⟨_, htaken, _⟩ := h.spawned t id stream
    have hgrows := (s.spawnedWorld t id).grows_acts (during id).all
    rw [List.length_append, hgrows.taken, htaken]

theorem step (op : PipedOp) :
    Coupled maxConcurrentJobs (s.step op).value
      (history ++ (s.step op).events) := by
  cases op with
  | env id action => exact h.step_env id action
  | submit command limits now layout => exact h.step_unread rfl fun _ => rfl
  | cancel target answers =>
      refine h.step_unread rfl fun stream => ?_
      simp only [PipedRunner.step, call?, JobRunner.apply, JobRunner.cancelJob,
        Data.Keyed.modify]
      cases Data.Keyed.lookup? Job.id target s.runner.jobs with
      | none => rfl
      | some job => simp [Job.readBytes_cancel]
  | tick t during => exact h.step_tick t during

end Coupled

theorem runPiped_coupled (maxConcurrentJobs : Nat) (ops : List PipedOp) :
    Coupled maxConcurrentJobs (runPiped maxConcurrentJobs ops).value
      (runPiped maxConcurrentJobs ops).events :=
  Machine.history_run (I := Coupled maxConcurrentJobs)
    (fun _ _ op h => h.step op)
    ⟨⟨[], rfl⟩, fun _ _ hexit => by contradiction,
      fun _ _ => List.nil_prefix, fun _ _ => rfl⟩ ops

end PipedRunner

namespace PipedRunner

/-- Every job that has been reaped has captured, if its log is not truncated,
what its processes had written when the leader exited. -/
def Complete (s : PipedRunner) (history : List Event) : Prop :=
  ∀ job ∈ s.runner.jobs, collectedLeaders (ownedBy job.id history) ≠ [] →
    job.logTruncated = false →
      ∃ exit, (s.world job.id).exit = some exit ∧
        ∀ stream, job.captured stream = exit.written stream

/-- If the leader has exited by the poll of this scan, each read leaves exactly
what had been written by then: nothing remains, and nothing came later. -/
def Drains (job : Job) (proc : Proc) (during : Interference) : Prop :=
  ∀ exit, (proc.acts during.all).exit = some exit → ∀ stream,
    (proc.pipe stream).taken +
      (if job.fd stream ≠ -1 then
        min 4096 ((proc.pipeAt during stream).written.length -
          (proc.pipe stream).taken)
      else 0) = (exit.written stream).length

def DrainsAtExit (s : PipedRunner) : PipedOp → Prop
  | .env .. | .submit .. | .cancel .. => True
  | .tick t during =>
      let answered := s.answeredTick t during
      ∀ job ∈ (s.runner.startPhase answered).value.jobs,
        job.id ∈ s.runner.scannedJobs answered → 0 < job.processGroup →
        job.logTruncated = false →
        Drains job (s.spawnedWorld t job.id) (during job.id)

namespace Coupled

variable {maxConcurrentJobs : Nat} {s : PipedRunner} {history : List Event}
  (h : Coupled maxConcurrentJobs s history)

include h

/-- The log is complete exactly if as many bytes were taken as had been written
at the exit. -/
theorem captured_eq_iff {job : Job} (hjob : job ∈ s.runner.jobs)
    (hcollected : collectedLeaders (ownedBy job.id history) ≠ [])
    (hlog : job.logTruncated = false) {exit : Exit}
    (hexit : (s.world job.id).exit = some exit) (stream : Stream) :
    job.captured stream = exit.written stream ↔
      ((s.world job.id).pipe stream).taken = (exit.written stream).length := by
  have hcaptures := h.captures.jobs job hjob
  have hspawned : ∀ answer ∈ spawnAnswers (ownedBy job.id history),
      answer.succeeded := by
    obtain ⟨pid, hpid⟩ := List.exists_mem_of_ne_nil _ hcollected
    obtain ⟨e, he, hleader⟩ := List.mem_filterMap.mp hpid
    have htarget : e.target? = some pid := by
      cases e with
      | waitCalled id group answer =>
          cases answer with
          | collected status => exact hleader
          | stillRunning | error => simp [Event.collectedLeader?] at hleader
      | _ => simp [Event.collectedLeader?] at hleader
    obtain ⟨_, spawned, hmem, hgroup⟩ :=
      hcaptures.record.targets e he pid htarget
    intro answer hanswer
    rw [hcaptures.record.spawnAnswers_eq hmem, List.mem_singleton] at hanswer
    subst hanswer
    cases answer with
    | spawned => rfl
    | failed => contradiction
  rw [hcaptures.captured hspawned hlog, h.taken]
  constructor
  · intro heq
    rw [heq]
  · intro hlength
    exact (List.prefix_of_prefix_length_le (h.delivered job.id stream)
      (h.sound job.id exit hexit stream) hlength.le).eq_of_length hlength

theorem taken_tick (t : Tick) (during : String → Interference) {job : Job}
    (hjob : job ∈ s.runner.jobs)
    (hscan : job.id ∈ s.runner.scannedJobs (s.answeredTick t during))
    (stream : Stream) :
    (((s.step (.tick t during)).value.world job.id).pipe stream).taken =
      ((s.spawnedWorld t job.id).pipe stream).taken +
        (if (s.runner.afterStart (s.answeredTick t during) job).fd stream ≠ -1
        then
          min 4096 (((s.spawnedWorld t job.id).pipeAt (during job.id)
            stream).written.length -
              ((s.spawnedWorld t job.id).pipe stream).taken)
        else 0) := by
  have hgrows := (s.spawnedWorld t job.id).grows_acts (during job.id).all
  have hat := ((s.spawnedWorld t job.id).grows_acts
    ((during job.id).beforeRead stream)).taken stream
  have hread : readBytes stream (ownedBy job.id (s.runner.apply
      (.tick (s.answeredTick t during))).events) =
        if (s.runner.afterStart (s.answeredTick t during) job).fd stream ≠ -1
        then
          ((s.spawnedWorld t job.id).pipeAt (during job.id)
            stream).read.getD []
        else [] := by
    rw [h.wellFormed.ownedBy_apply _ hjob, JobRunner.actionsOn,
      JobRunner.readBytes_run_tickActions]
    simp only [hscan, true_and, scan_answeredTick, Proc.read_answers]
  simp only [PipedRunner.step, call?, nextWorld, Proc.consume, hread,
    hgrows.taken]
  split
  · rw [Pipe.getD_read, List.length_take, List.length_drop,
      Proc.pipeAt, hat]
  · rfl

omit h in
theorem exit_tick (t : Tick) (during : String → Interference) (id : String) :
    ((s.step (.tick t during)).value.world id).exit =
      ((s.spawnedWorld t id).acts (during id).all).exit := rfl

end Coupled

theorem isSome_collected? {proc : Proc} {during : Interference}
    {base : ScanAnswers} {job : Job} :
    (job.collected? (proc.answers during base)).isSome = true ↔
      0 < job.processGroup ∧ ∃ exit, (proc.acts during.all).exit = some exit := by
  have hwait : (proc.answers during base).wait =
      (proc.acts during.all).wait := rfl
  unfold Job.collected?
  rw [hwait, Proc.wait]
  cases hexit : (proc.acts during.all).exit with
  | none => split <;> simp
  | some exit => split <;> simp_all

theorem run_of_reaped {job : Job} {actions : List JobAction}
    (hstatus : job.status = .completed ∨ job.status = .failed)
    (hguard : jobMachine.Along JobRunner.Guard job actions) :
    jobMachine.run job actions = pure job := by
  induction actions with
  | nil => rfl
  | cons action actions ih =>
      have hact : jobMachine.step job action = pure job := by
        cases action with
        | start nowMs answer =>
            have hwaits : job.status = .queued ∨ job.status = .cancelled :=
              hguard.1
            rcases hstatus with hstatus | hstatus <;> simp [hstatus] at hwaits
        | scan nowMs answers =>
            have hrunning : job.status = .running := hguard.1
            rcases hstatus with hstatus | hstatus <;>
              simp [hstatus] at hrunning
        | cancel answers =>
            rcases hstatus with hstatus | hstatus <;> ext1 <;>
              simp [jobMachine, Job.act, Job.value_cancel, Job.events_cancel,
                hstatus]
      have hrest := ih (by simpa [hact] using hguard.2)
      ext1 <;> simp [hact, hrest]

namespace Coupled

variable {maxConcurrentJobs : Nat} {s : PipedRunner} {history : List Event}
  (h : Coupled maxConcurrentJobs s history)

include h

section Reaped

variable {job : Job} (hjob : job ∈ s.runner.jobs)
  (hcollected : collectedLeaders (ownedBy job.id history) ≠ [])

include hjob hcollected

theorem run_actionsOn_of_reaped (call : Op) :
    jobMachine.run job (s.runner.actionsOn call job.id) = pure job :=
  run_of_reaped ((h.captures.jobs job hjob).collected hcollected)
    (h.wellFormed.guard_along call hjob)

theorem exit_step_of_reaped (op : PipedOp) {exit : Exit}
    (hexit : (s.world job.id).exit = some exit) :
    ((s.step op).value.world job.id).exit = some exit := by
  cases op with
  | env id action =>
      simp only [PipedRunner.step, call?, nextWorld, Traced.value_pure]
      by_cases hid : job.id = id
      · subst hid
        simpa using ((s.world job.id).grows_act action).exit exit hexit
      · simpa [hid] using hexit
  | submit command limits now layout => exact hexit
  | cancel id answers => exact hexit
  | tick t during =>
      have hidle : job.id ∉ s.runner.startedJobs t := by
        intro hstart
        have hwaits := h.wellFormed.waiting job hjob
          (JobRunner.startedJobs_subset t s.runner hstart)
        rcases (h.captures.jobs job hjob).collected hcollected with
          hstatus | hstatus <;> simp [hstatus] at hwaits
      have hsame : s.spawnedWorld t job.id = s.world job.id := by
        rw [spawnedWorld, if_neg (fun hstart => hidle hstart.1)]
      rw [exit_tick, hsame]
      exact ((s.world job.id).grows_acts _).exit exit hexit

end Reaped

/-- A job that a tick scans and finds exited has a complete log afterwards
exactly if the scan drains it. -/
theorem captured_tick_iff (t : Tick) (during : String → Interference)
    {job : Job} (hjob : job ∈ s.runner.jobs)
    (hscan : job.id ∈ s.runner.scannedJobs (s.answeredTick t during))
    {job' : Job} (hjob' : job' ∈ (s.step (.tick t during)).value.runner.jobs)
    (hid : job'.id = job.id)
    (hcollected : collectedLeaders (ownedBy job'.id
      (history ++ (s.step (.tick t during)).events)) ≠ [])
    (hlog : job'.logTruncated = false) {exit : Exit}
    (hexit : ((s.spawnedWorld t job.id).acts (during job.id).all).exit =
      some exit) :
    (∀ stream, job'.captured stream = exit.written stream) ↔
      Drains (s.runner.afterStart (s.answeredTick t during) job)
        (s.spawnedWorld t job.id) (during job.id) := by
  have hnext := h.step (.tick t during)
  have hexit' : ((s.step (.tick t during)).value.world job'.id).exit =
      some exit := by
    rw [hid]
    exact hexit
  have hiff : ∀ stream, job'.captured stream = exit.written stream ↔ _ :=
    fun stream => hnext.captured_eq_iff hjob' hcollected hlog hexit' stream
  simp only [hiff, hid, h.taken_tick t during hjob hscan]
  constructor
  · intro hdrained other hother stream
    obtain rfl : exit = other := Option.some.inj (hexit.symm.trans hother)
    exact hdrained stream
  · intro hdrains stream
    exact hdrains exit hexit stream

/-- A reaped job was reaped before a call, and is unchanged, or is reaped by the
scan of that call. -/
theorem reaped_or_scanned (call : Op) {job' : Job}
    (hjob' : job' ∈ (s.runner.apply call).value.jobs)
    (hcollected : collectedLeaders
      (ownedBy job'.id (history ++ (s.runner.apply call).events)) ≠ []) :
    (job' ∈ s.runner.jobs ∧
      collectedLeaders (ownedBy job'.id history) ≠ []) ∨
    ∃ t, call = .tick t ∧ ∃ job ∈ s.runner.jobs,
      job.id ∈ s.runner.scannedJobs t ∧
      job' = ((s.runner.afterStart t job).scan t.nowMs (t.scan job.id)).value ∧
      (((s.runner.afterStart t job).drainBoth (t.scan job.id)).value.collected?
        (t.scan job.id)).isSome := by
  have hwf := h.wellFormed
  rw [ownedBy_append, collectedLeaders_append] at hcollected
  rcases hwf.jobs_apply call with ⟨command, limits, now, layout, rfl, hperm⟩ |
    hmap
  · have howned : ∀ job ∈ s.runner.jobs, collectedLeaders (ownedBy job.id
        (s.runner.apply (.submit command limits now layout)).events) = [] := by
      intro job hjob
      rw [hwf.ownedBy_apply _ hjob]
      rfl
    rcases List.mem_append.mp (hperm.mem_iff.mp hjob') with hold | hnew
    · rw [howned job' hold, List.append_nil] at hcollected
      exact .inl ⟨hold, hcollected⟩
    · have hborn := (h.captures.apply newJob_captures
        (P := fun _ _ => True)
        (fun _ _ action hcaptures hfits _ => hcaptures.act action hfits)
        (.submit command limits now layout)
        (fun _ _ => Machine.Along.of_forall (fun _ _ => trivial) _ _)).jobs
        job' hjob'
      rw [← collectedLeaders_append, ← ownedBy_append] at hcollected
      rcases hborn.collected hcollected with hstatus | hstatus <;>
        rw [List.mem_singleton.mp hnew] at hstatus <;> cases hstatus
  · rw [hmap] at hjob'
    obtain ⟨job, hjob, rfl⟩ := List.mem_map.mp hjob'
    rw [Job.id_run, hwf.ownedBy_apply call hjob] at hcollected
    by_cases hreaped : collectedLeaders (ownedBy job.id history) = []
    · rw [hreaped, List.nil_append] at hcollected
      obtain ⟨t, htick, hscan, hvalue, hsome⟩ :=
        JobRunner.scanned_of_collected job hcollected
      exact .inr ⟨t, htick, job, hjob, hscan, hvalue, hsome⟩
    · have hrun := h.run_actionsOn_of_reaped hjob hreaped call
      rw [hrun]
      exact .inl ⟨hjob, hreaped⟩

/-- A scan that finds the leader gone leaves a complete log if it drains the
pipes. -/
theorem complete_scan (t : Tick) (during : String → Interference)
    (hdrains : s.DrainsAtExit (.tick t during)) {job job' : Job}
    (hjob : job ∈ s.runner.jobs)
    (hscan : job.id ∈ s.runner.scannedJobs (s.answeredTick t during))
    (hvalue : job' = ((s.runner.afterStart (s.answeredTick t during) job).scan
      t.nowMs ((s.answeredTick t during).scan job.id)).value)
    (hsome : (((s.runner.afterStart (s.answeredTick t during) job).drainBoth
      ((s.answeredTick t during).scan job.id)).value.collected?
        ((s.answeredTick t during).scan job.id)).isSome)
    (hjob' : job' ∈ (s.step (.tick t during)).value.runner.jobs)
    (hcollected : collectedLeaders (ownedBy job'.id
      (history ++ (s.step (.tick t during)).events)) ≠ [])
    (hlog : job'.logTruncated = false) :
    ∃ exit, ((s.step (.tick t during)).value.world job'.id).exit = some exit ∧
      ∀ stream, job'.captured stream = exit.written stream := by
  have hid : job'.id = job.id := by
    rw [hvalue, Job.id_scan, JobRunner.id_afterStart]
  rw [scan_answeredTick, isSome_collected?, Job.processGroup_drainBoth]
    at hsome
  obtain ⟨hgroup, exit, hexit⟩ := hsome
  have hbefore := (Job.captured_scan (hvalue ▸ hlog)).1
  have hdrained := hdrains
    (s.runner.afterStart (s.answeredTick t during) job)
    ((h.wellFormed.mem_startPhase_iff _ _).mpr ⟨job, hjob, rfl⟩)
    (by rw [JobRunner.id_afterStart]; exact hscan) hgroup hbefore
  rw [JobRunner.id_afterStart] at hdrained
  refine ⟨exit, ?_, (h.captured_tick_iff t during hjob hscan hjob' hid
    hcollected hlog hexit).mpr hdrained⟩
  rw [hid]
  exact hexit

/-- A step keeps the logs complete if it drains what it reaps. -/
theorem complete_step (hcomplete : Complete s history) {op : PipedOp}
    (hdrains : s.DrainsAtExit op) :
    Complete (s.step op).value (history ++ (s.step op).events) := by
  intro job' hjob' hcollected hlog
  -- a job that was reaped before is left alone
  have hold : job' ∈ s.runner.jobs →
      collectedLeaders (ownedBy job'.id history) ≠ [] →
      ∃ exit, ((s.step op).value.world job'.id).exit = some exit ∧
        ∀ stream, job'.captured stream = exit.written stream := by
    intro hjob hreaped
    obtain ⟨exit, hexit, hwritten⟩ := hcomplete job' hjob hreaped hlog
    exact ⟨exit, h.exit_step_of_reaped hjob hreaped op hexit, hwritten⟩
  cases hcall : s.call? op with
  | none =>
      have hstep : (s.step op).value.runner = s.runner ∧
          (s.step op).events = [] := by
        simp [PipedRunner.step, hcall]
      rw [hstep.1] at hjob'
      rw [hstep.2, List.append_nil] at hcollected
      exact hold hjob' hcollected
  | some call =>
      have hstep : (s.step op).value.runner = (s.runner.apply call).value ∧
          (s.step op).events = (s.runner.apply call).events := by
        simp [PipedRunner.step, hcall]
      have hjobs := hjob'
      have hleaders := hcollected
      rw [hstep.1] at hjobs
      rw [hstep.2] at hleaders
      rcases h.reaped_or_scanned call hjobs hleaders with ⟨hjob, hreaped⟩ |
        ⟨answered, hanswered, job, hjob, hscan, hvalue, hsome⟩
      · exact hold hjob hreaped
      · cases op with
        | env id action => cases hcall
        | submit command limits now layout =>
            simp [call?, hanswered] at hcall
        | cancel id answers => simp [call?, hanswered] at hcall
        | tick t during =>
            obtain rfl : s.answeredTick t during = answered :=
              Op.tick.inj (Option.some.inj (hcall.trans (by rw [hanswered])))
            exact h.complete_scan t during hdrains hjob hscan hvalue hsome
              hjob' hcollected hlog

/-- The job a tick leaves behind where its scan finds the leader gone. -/
theorem reaped_tick (t : Tick) (during : String → Interference) {job : Job}
    (hjob : job ∈ s.runner.jobs)
    (hscan : job.id ∈ s.runner.scannedJobs (s.answeredTick t during))
    (hgroup : 0 <
      (s.runner.afterStart (s.answeredTick t during) job).processGroup)
    {exit : Exit}
    (hexit : ((s.spawnedWorld t job.id).acts (during job.id).all).exit =
      some exit) :
    ∃ job' ∈ (s.step (.tick t during)).value.runner.jobs,
      job'.id = job.id ∧
      job'.logTruncated =
        (s.runner.afterStart (s.answeredTick t during) job).logTruncated ∧
      collectedLeaders (ownedBy job'.id
        (history ++ (s.step (.tick t during)).events)) ≠ [] := by
  have hwf := h.wellFormed
  have hsome : (((s.runner.afterStart (s.answeredTick t during) job).drainBoth
      ((s.answeredTick t during).scan job.id)).value.collected?
        ((s.answeredTick t during).scan job.id)).isSome = true := by
    rw [scan_answeredTick, isSome_collected?, Job.processGroup_drainBoth]
    exact ⟨hgroup, exit, hexit⟩
  refine ⟨_, hwf.mem_jobs_apply (.tick (s.answeredTick t during)) hjob,
    Job.id_run _ job, ?_, ?_⟩
  · rw [JobRunner.actionsOn, JobRunner.value_run_tickActions, if_pos hscan]
    exact Job.logTruncated_scan_of_isSome hsome
  · have howned : ownedBy job.id (s.step (.tick t during)).events = _ :=
      hwf.ownedBy_apply (.tick (s.answeredTick t during)) hjob
    rw [Job.id_run, ownedBy_append, collectedLeaders_append, howned,
      JobRunner.actionsOn, JobRunner.collectedLeaders_run_tickActions,
      if_pos hscan, Job.collectedLeaders_scan, if_pos hsome]
    simp

/-- A step that leaves the logs complete has drained what it has reaped. -/
theorem drains_of_complete {op : PipedOp}
    (hcomplete : Complete (s.step op).value
      (history ++ (s.step op).events)) : s.DrainsAtExit op := by
  cases op with
  | env id action => trivial
  | submit command limits now layout => trivial
  | cancel id answers => trivial
  | tick t during =>
      intro found hfound hscan hgroup hlog
      obtain ⟨job, hjob, rfl⟩ :=
        (h.wellFormed.mem_startPhase_iff _ found).mp hfound
      rw [JobRunner.id_afterStart] at hscan ⊢
      cases hexit :
          ((s.spawnedWorld t job.id).acts (during job.id).all).exit with
      | none =>
          intro exit hother
          rw [hexit] at hother
          cases hother
      | some exit =>
          obtain ⟨job', hjob', hid, hlog', hcollected⟩ :=
            h.reaped_tick t during hjob hscan hgroup hexit
          rw [hlog] at hlog'
          obtain ⟨other, hother, hwritten⟩ :=
            hcomplete job' hjob' hcollected hlog'
          rw [hid] at hother
          obtain rfl : exit = other :=
            Option.some.inj (hexit.symm.trans hother)
          exact (h.captured_tick_iff t during hjob hscan hjob' hid hcollected
            hlog' hexit).mp hwritten

end Coupled

def CompleteCapture (maxConcurrentJobs : Nat) (ops : List PipedOp) : Prop :=
  ∀ before after, ops = before ++ after →
    Complete (runPiped maxConcurrentJobs before).value
      (runPiped maxConcurrentJobs before).events

/-- The captured output of every reaped job is complete exactly if the last
scan of each job drains its pipes as they were when the leader exited. -/
theorem completeCapture_iff (maxConcurrentJobs : Nat) (ops : List PipedOp) :
    CompleteCapture maxConcurrentJobs ops ↔
      pipedMachine.Along DrainsAtExit ⟨.create maxConcurrentJobs, fun _ => {}⟩
        ops := by
  constructor
  · intro hcomplete
    rw [Machine.along_iff_forall_split]
    intro before op after hsplit
    have hnext := hcomplete (before ++ [op]) after (by simp [hsplit])
    rw [runPiped, Machine.value_run_concat, Machine.events_run_concat] at hnext
    exact (runPiped_coupled maxConcurrentJobs before).drains_of_complete hnext
  · intro halong before after hsplit
    subst hsplit
    have hinit : Coupled maxConcurrentJobs
          ⟨.create maxConcurrentJobs, fun _ => {}⟩ [] ∧
        Complete ⟨.create maxConcurrentJobs, fun _ => {}⟩ [] :=
      ⟨runPiped_coupled maxConcurrentJobs [],
        fun _ _ hcollected => by contradiction⟩
    have hinvariant := Machine.history_along (m := pipedMachine)
      (I := fun s history => Coupled maxConcurrentJobs s history ∧
        Complete s history)
      (fun _ _ op hI hop => ⟨hI.1.step op, hI.1.complete_step hI.2 hop⟩)
      hinit (Machine.along_append.mp halong).1
    exact hinvariant.2

/-- A job that writes 4097 bytes and exits before its first scan. -/
def longOutput : List PipedOp :=
  [.submit "head -c 4097 /dev/zero" {} 0 JobRunner.plainLayout,
    .tick JobRunner.plainTick fun _ =>
      { beforeStdout :=
          [.write .stdout (List.replicate 4097 0), .exit (.exited 0)] }]

theorem long_output_is_cut : ¬CompleteCapture 10 longOutput := by
  intro hcomplete
  have hreaped : ∃ job ∈ (runPiped 10 longOutput).value.runner.jobs,
      job.id = "job_1" ∧ job.logTruncated = false ∧
        job.output.length = 4096 := by
    decide +kernel
  have hleaders : collectedLeaders
      (ownedBy "job_1" (runPiped 10 longOutput).events) ≠ [] := by
    decide +kernel
  have hwritten : (((runPiped 10 longOutput).value.world "job_1").exit.map
      fun exit => (exit.written .stdout).length) = some 4097 := by
    decide +kernel
  obtain ⟨job, hjob, hid, hlog, hlength⟩ := hreaped
  obtain ⟨exit, hexit, hcaptured⟩ := hcomplete longOutput [] (by simp) job hjob
    (hid ▸ hleaders) hlog
  rw [hid] at hexit
  rw [hexit, Option.map_some, ← hcaptured .stdout] at hwritten
  have hoverlong : job.output.length = 4097 := Option.some.inj hwritten
  omega

end PipedRunner

end HeidiKernel
