import HeidiKernel.Job.Lifecycle
import HeidiKernel.Job.Record

namespace HeidiKernel

open HeidiKernel.Transition

/-! The race after `fork`. The child moves into a group of its own while the
parent asks up to ten times which group the child is in, and keeps the first
answer. -/

inductive Move
  | child
  | parent (answered : Bool)
  deriving DecidableEq, Repr

/-- The parent is done once it has recorded a group. -/
structure Race where
  moved : Bool := false
  attempt : Nat := 0
  recorded : Option Int := none
  deriving DecidableEq, Repr

namespace Race

/-- `getpgid` of the child: the child starts out in the group of the daemon. -/
def childGroup (pid daemonGroup : Int) (race : Race) : Int :=
  if race.moved then pid else daemonGroup

def step (pid daemonGroup : Int) (race : Race) : Move → Race
  | .child => { race with moved := true }
  | .parent answered =>
      if race.recorded.isSome then
        race
      else if answered then
        { race with recorded := some (race.childGroup pid daemonGroup) }
      else if race.attempt + 1 < 10 then
        { race with attempt := race.attempt + 1 }
      else
        { race with attempt := race.attempt + 1, recorded := some pid }

def run (pid daemonGroup : Int) (schedule : List Move) : Race :=
  schedule.foldl (step pid daemonGroup) {}

end Race

def Move.isParent : Move → Bool
  | .child => false
  | .parent _ => true

/-- Among the ten attempts of the parent, those that are answered come after
the child has moved. -/
def MovesFirst (schedule : List Move) : Prop :=
  ∀ before after, schedule = before ++ .parent true :: after →
    .child ∈ before ∨ 10 ≤ before.countP Move.isParent

theorem movesFirst_concat {schedule : List Move} {last : Move} :
    MovesFirst (schedule ++ [last]) ↔ MovesFirst schedule ∧
      (last = .parent true →
        .child ∈ schedule ∨ 10 ≤ schedule.countP Move.isParent) := by
  constructor
  · intro h
    refine ⟨?_, ?_⟩
    · intro before after hsplit
      exact h before (after ++ [last]) (by simp [hsplit])
    · intro hlast
      exact h schedule [] (by rw [hlast])
  · intro h before after hsplit
    rcases List.eq_nil_or_concat after with rfl | ⟨rest, final, rfl⟩
    · obtain ⟨rfl, hfinal⟩ := List.append_inj' hsplit rfl
      exact h.2 (List.singleton_inj.mp hfinal)
    · have hshift : schedule ++ [last] =
          (before ++ .parent true :: rest) ++ [final] := by
        simpa using hsplit
      obtain ⟨hfront, _⟩ := List.append_inj' hshift rfl
      exact h.1 before rest hfront

namespace Race

structure Observes (pid daemonGroup : Int) (schedule : List Move)
    (race : Race) : Prop where
  moved : race.moved = true ↔ .child ∈ schedule
  pending : race.recorded = none →
    race.attempt = schedule.countP Move.isParent ∧ race.attempt < 10 ∧
      MovesFirst schedule
  settled : ∀ group, race.recorded = some group →
    (group = pid ∧ MovesFirst schedule ∧
      (.child ∈ schedule ∨ 10 ≤ schedule.countP Move.isParent)) ∨
    (group = daemonGroup ∧ ¬MovesFirst schedule)

theorem run_concat (pid daemonGroup : Int) (schedule : List Move)
    (last : Move) :
    run pid daemonGroup (schedule ++ [last]) =
      (run pid daemonGroup schedule).step pid daemonGroup last := by
  simp [run]

variable {pid daemonGroup : Int} {schedule : List Move} {race : Race}

theorem Observes.child (h : Observes pid daemonGroup schedule race) :
    Observes pid daemonGroup (schedule ++ [.child])
      (race.step pid daemonGroup .child) := by
  have hfirst : MovesFirst (schedule ++ [.child]) ↔ MovesFirst schedule := by
    simp [movesFirst_concat]
  refine ⟨by simp [step], ?_, ?_⟩
  · intro hpending
    obtain ⟨hattempt, hlt, hmoves⟩ := h.pending hpending
    exact ⟨by simpa [step, Move.isParent] using hattempt, hlt,
      hfirst.mpr hmoves⟩
  · intro group hgroup
    rw [hfirst]
    rcases h.settled group hgroup with ⟨heq, hmoves, _⟩ | hdaemon
    · exact .inl ⟨heq, hmoves, .inl (by simp)⟩
    · exact .inr hdaemon

theorem Observes.late (h : Observes pid daemonGroup schedule race)
    {group : Int} (hgroup : race.recorded = some group) (answered : Bool) :
    Observes pid daemonGroup (schedule ++ [.parent answered])
      (race.step pid daemonGroup (.parent answered)) := by
  have hsame : race.step pid daemonGroup (.parent answered) = race := by
    simp [step, hgroup]
  rw [hsame]
  refine ⟨by simpa using h.moved, by simp [hgroup], ?_⟩
  intro other hother
  rw [movesFirst_concat]
  rcases h.settled other hother with ⟨heq, hmoves, hreached⟩ | ⟨heq, hnot⟩
  · refine .inl ⟨heq, ⟨hmoves, fun _ => hreached⟩, ?_⟩
    rcases hreached with hchild | hcount
    · exact .inl (List.mem_append_left _ hchild)
    · refine .inr (Nat.le_trans hcount ?_)
      rw [List.countP_append]
      exact Nat.le_add_right _ _
  · exact .inr ⟨heq, fun h => hnot h.1⟩

theorem Observes.answered (h : Observes pid daemonGroup schedule race)
    (hpending : race.recorded = none) :
    Observes pid daemonGroup (schedule ++ [.parent true])
      (race.step pid daemonGroup (.parent true)) := by
  obtain ⟨hattempt, hlt, hmoves⟩ := h.pending hpending
  have hstep : race.step pid daemonGroup (.parent true) =
      { race with recorded := some (race.childGroup pid daemonGroup) } := by
    simp [step, hpending]
  rw [hstep]
  refine ⟨by simpa using h.moved, by simp, ?_⟩
  intro group hgroup
  obtain rfl : race.childGroup pid daemonGroup = group :=
    Option.some.inj hgroup
  rw [movesFirst_concat]
  cases hmoved : race.moved with
  | true =>
      have hchild := h.moved.mp hmoved
      exact .inl ⟨by simp [childGroup, hmoved], ⟨hmoves, fun _ => .inl hchild⟩,
        .inl (List.mem_append_left _ hchild)⟩
  | false =>
      have hchild : .child ∉ schedule := by
        intro hchild
        rw [h.moved.mpr hchild] at hmoved
        contradiction
      refine .inr ⟨by simp [childGroup, hmoved], fun hfirst => ?_⟩
      rcases hfirst.2 rfl with hin | hcount
      · exact hchild hin
      · omega

theorem Observes.unanswered (h : Observes pid daemonGroup schedule race)
    (hpending : race.recorded = none) :
    Observes pid daemonGroup (schedule ++ [.parent false])
      (race.step pid daemonGroup (.parent false)) := by
  obtain ⟨hattempt, hlt, hmoves⟩ := h.pending hpending
  have hfirst : MovesFirst (schedule ++ [.parent false]) :=
    movesFirst_concat.mpr ⟨hmoves, by simp⟩
  have hcount : (schedule ++ [Move.parent false]).countP Move.isParent =
      race.attempt + 1 := by
    simp [hattempt, Move.isParent]
  by_cases hmore : race.attempt + 1 < 10
  · have hstep : race.step pid daemonGroup (.parent false) =
        { race with attempt := race.attempt + 1 } := by
      simp [step, hpending, hmore]
    rw [hstep]
    exact ⟨by simpa using h.moved, fun _ => ⟨hcount.symm, hmore, hfirst⟩,
      by simp [hpending]⟩
  · have hstep : race.step pid daemonGroup (.parent false) =
        { race with attempt := race.attempt + 1, recorded := some pid } := by
      simp [step, hpending, hmore]
    rw [hstep]
    refine ⟨by simpa using h.moved, by simp, ?_⟩
    intro group hgroup
    exact .inl ⟨(Option.some.inj hgroup).symm, hfirst, .inr (by omega)⟩

theorem run_observes (pid daemonGroup : Int) (schedule : List Move) :
    Observes pid daemonGroup schedule (run pid daemonGroup schedule) := by
  induction schedule using List.reverseRecOn with
  | nil =>
      exact ⟨by simp [run], by simp [run, MovesFirst], by simp [run]⟩
  | append_singleton schedule last ih =>
      rw [run_concat]
      cases last with
      | child => exact ih.child
      | parent answered =>
          cases hrecorded : (run pid daemonGroup schedule).recorded with
          | some group => exact ih.late hrecorded answered
          | none =>
              cases answered with
              | true => exact ih.answered hrecorded
              | false => exact ih.unanswered hrecorded

end Race

/-- What happens around one call of `spawn_job`. The result of `fork` is the
pid of the child, if there is one. -/
structure SpawnCall where
  pipesCreated : Bool
  fork : Option Int
  schedule : List Move
  startTime : Option UInt64
  stdoutFd : Int
  stderrFd : Int
  now : SystemTime

/-- `RealProcessSpawner::spawn_job`, if it has returned by the end of the
schedule. -/
def SpawnCall.spawnJob (daemonGroup : Int) (call : SpawnCall) :
    Option SpawnAnswer :=
  if !call.pipesCreated then
    some (.failed (bytes "Failed to create pipes") call.now)
  else
    match call.fork with
    | none => some (.failed (bytes "Failed to fork") call.now)
    | some pid =>
        (Race.run pid daemonGroup call.schedule).recorded.map fun group =>
          .spawned group call.startTime call.stdoutFd call.stderrFd

theorem SpawnCall.processGroup_spawnJob {daemonGroup : Int}
    {call : SpawnCall} {pid : Int} (hfork : call.fork = some pid)
    {answer : SpawnAnswer}
    (hreturned : call.spawnJob daemonGroup = some answer)
    (hspawned : answer.succeeded) :
    ∃ group, answer.processGroup? = some group ∧
      (Race.run pid daemonGroup call.schedule).recorded = some group := by
  unfold spawnJob at hreturned
  split at hreturned
  · rw [← Option.some.inj hreturned] at hspawned
    contradiction
  · rw [hfork] at hreturned
    obtain ⟨group, hrecorded, rfl⟩ := Option.map_eq_some_iff.mp hreturned
    exact ⟨group, rfl, hrecorded⟩

namespace JobRunner

/-- Whatever is signalled or polled on behalf of a job is the group its spawn
reported. -/
theorem targets_of_spawned {maxConcurrentJobs : Nat} {ops : List Op}
    {id : String} {answer : SpawnAnswer}
    (hspawn : .spawnCalled id answer ∈ (runJobs maxConcurrentJobs ops).events)
    {group : Int} (hgroup : answer.processGroup? = some group) :
    (∀ job, (runJobs maxConcurrentJobs ops).value.getJobStatus id = some job →
      job.processGroup = group) ∧
    ∀ e ∈ (runJobs maxConcurrentJobs ops).events, e.owner = id →
      ∀ pid, e.target? = some pid → pid = group := by
  have htracks := runJobs_record maxConcurrentJobs ops
  have hanswer := mem_spawnAnswers_ownedBy.mpr hspawn
  obtain ⟨job, hjob, rfl⟩ := List.mem_map.mp (htracks.owned _ hspawn)
  have hrecord := htracks.jobs job hjob
  constructor
  · intro found hfound
    obtain ⟨hmem, hid⟩ := Data.Keyed.lookup?_sound hfound
    have hsame := Data.Keyed.eq_of_key_eq htracks.accounts.wellFormed.ids_nodup
      hmem hjob hid
    rw [hsame]
    exact hrecord.group answer hanswer group hgroup
  · intro e he howner pid htarget
    obtain ⟨_, other, hother, hpid⟩ :=
      hrecord.targets e (mem_ownedBy.mpr ⟨he, howner⟩) pid htarget
    have hjoint := (hrecord.group other hother pid hpid).symm
    rw [hjoint]
    exact hrecord.group answer hanswer group hgroup

/-- The group recorded for a job, and with it everything the daemon signals on
its behalf, is the group of its own child exactly if the child moves before the
first answered attempt. -/
theorem signals_own_group_iff {daemonGroup pid : Int} {call : SpawnCall}
    {answer : SpawnAnswer} (hfork : call.fork = some pid)
    (hfresh : pid ≠ daemonGroup)
    (hreturned : call.spawnJob daemonGroup = some answer)
    (hspawned : answer.succeeded) {maxConcurrentJobs : Nat} {ops : List Op}
    {id : String} (hspawn : .spawnCalled id answer ∈
      (runJobs maxConcurrentJobs ops).events) :
    (answer.processGroup? = some pid ∧
      (∀ job, (runJobs maxConcurrentJobs ops).value.getJobStatus id =
        some job → job.processGroup = pid ∧ job.processGroup ≠ daemonGroup) ∧
      ∀ e ∈ (runJobs maxConcurrentJobs ops).events, e.owner = id →
        ∀ target, e.target? = some target →
          target = pid ∧ target ≠ daemonGroup) ↔
    MovesFirst call.schedule := by
  obtain ⟨group, hgroup, hrecorded⟩ :=
    call.processGroup_spawnJob hfork hreturned hspawned
  have hsettled := (Race.run_observes pid daemonGroup call.schedule).settled
    group hrecorded
  constructor
  · intro hown
    rcases hsettled with ⟨_, hfirst, _⟩ | ⟨hdaemon, _⟩
    · exact hfirst
    · have hpid : group = pid := Option.some.inj (hgroup.symm.trans hown.1)
      exact False.elim (hfresh (hpid.symm.trans hdaemon))
  · intro hfirst
    rcases hsettled with ⟨rfl, _⟩ | ⟨_, hnot⟩
    · obtain ⟨hjob, htargets⟩ := targets_of_spawned hspawn hgroup
      refine ⟨hgroup, ?_, ?_⟩
      · intro job hfound
        rw [hjob job hfound]
        exact ⟨rfl, hfresh⟩
      · intro e he howner target htarget
        rw [htargets e he howner target htarget]
        exact ⟨rfl, hfresh⟩
    · exact False.elim (hnot hfirst)

def scheduledCall (schedule : List Move) : SpawnCall where
  pipesCreated := true
  fork := some 4242
  schedule := schedule
  startTime := none
  stdoutFd := 5
  stderrFd := 6
  now := 0

theorem child_first_signals_own_group :
    (SpawnAnswer.spawned 4242 none 5 6).processGroup? = some 4242 ∧
      (∀ job, (runJobs 10 [plainSubmit, .tick plainTick]).value.getJobStatus
        "job_1" = some job →
          job.processGroup = 4242 ∧ job.processGroup ≠ 100) ∧
      ∀ e ∈ (runJobs 10 [plainSubmit, .tick plainTick]).events,
        e.owner = "job_1" → ∀ target, e.target? = some target →
          target = 4242 ∧ target ≠ 100 := by
  have hreturned : (scheduledCall [.child, .parent true]).spawnJob 100 =
      some (.spawned 4242 none 5 6) := by decide +kernel
  have hfirst : MovesFirst ([] ++ [.child] ++ [.parent true]) := by
    rw [movesFirst_concat, movesFirst_concat]
    simp [MovesFirst]
  exact (signals_own_group_iff rfl (by decide) hreturned rfl
    (by decide +kernel)).mpr hfirst

/-- The parent asks before the child has moved, and the job is cancelled. -/
theorem early_parent_signals_daemon :
    (scheduledCall [.parent true, .child]).spawnJob 100 =
        some (.spawned 100 none 5 6) ∧
      Event.killed "job_1" 100 .sigterm ∈
        (runJobs 10 [plainSubmit,
          .tick { plainTick with spawn := fun _ => .spawned 100 none 5 6 },
          .cancel "job_1" {}]).events := by
  decide +kernel

end JobRunner

end HeidiKernel
