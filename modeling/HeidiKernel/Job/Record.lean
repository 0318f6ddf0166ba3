import HeidiKernel.Job.History

namespace HeidiKernel

open HeidiKernel.Transition

/-! What the history of a job says about the job: which descriptors it still
holds, which process it may signal, and whether its leader has been
collected. -/

def openFds (fd : Int) : List Int := if fd = -1 then [] else [fd]

namespace SpawnAnswer

def openFds (stream : Stream) (answer : SpawnAnswer) : List Int :=
  match answer.fd? stream with
  | some fd => HeidiKernel.openFds fd
  | none => []

end SpawnAnswer

namespace Event

def closedFd? (stream : Stream) : Event → Option Int
  | .closed _ other fd => if other = stream then some fd else none
  | _ => none

def collectedLeader? : Event → Option Int
  | .waitCalled _ pid (.collected _) => some pid
  | _ => none

end Event

def closedFds (stream : Stream) (events : List Event) : List Int :=
  events.filterMap (Event.closedFd? stream)

def collectedLeaders (events : List Event) : List Int :=
  events.filterMap Event.collectedLeader?

def openedFds (stream : Stream) (events : List Event) : List Int :=
  (spawnAnswers events).flatMap (SpawnAnswer.openFds stream)

@[simp] theorem closedFds_append (stream : Stream)
    (first second : List Event) :
    closedFds stream (first ++ second) =
      closedFds stream first ++ closedFds stream second :=
  List.filterMap_append

@[simp] theorem collectedLeaders_append (first second : List Event) :
    collectedLeaders (first ++ second) =
      collectedLeaders first ++ collectedLeaders second :=
  List.filterMap_append

@[simp] theorem collectedLeaders_nil : collectedLeaders [] = [] := rfl

namespace Job

@[simp] theorem fd_append (bytes : Bytes) (stream other : Stream)
    (job : Job) : (job.append bytes stream).fd other = job.fd other := by
  cases stream <;> cases other <;> rfl

theorem fd_setFd (value : Int) (stream other : Stream) (job : Job) :
    (job.setFd value stream).fd other =
      if other = stream then value else job.fd other := by
  cases stream <;> cases other <;> rfl

/-! The ledger of descriptors: what is closed and what is still open afterwards
was open before. -/

def Settles (job : Job) (x : Traced Event Job) : Prop :=
  ∀ stream, closedFds stream x.events ++ openFds (x.value.fd stream) =
    openFds (job.fd stream)

theorem Settles.bind {job : Job} {x : Traced Event Job}
    {next : Job → Traced Event Job} (h : Settles job x)
    (h' : Settles x.value (next x.value)) : Settles job (x >>= next) := by
  intro stream
  rw [Traced.events_bind, closedFds_append, List.append_assoc,
    Traced.value_bind, h' stream, h stream]

theorem settles_of_no_close {job : Job} {x : Traced Event Job}
    (hfd : ∀ stream, x.value.fd stream = job.fd stream)
    (hclose : ∀ stream, closedFds stream x.events = []) : Settles job x := by
  intro stream
  rw [hclose, hfd, List.nil_append]

theorem settles_close {stream : Stream} {job : Job}
    (hopen : job.fd stream ≠ -1) (events : List Event)
    (hevents : ∀ other, closedFds other events = []) :
    Settles job
      ⟨job.setFd (-1) stream,
        events ++ [.closed job.id stream (job.fd stream)]⟩ := by
  intro other
  rw [closedFds_append, hevents, List.nil_append, fd_setFd]
  by_cases hother : other = stream
  · subst hother
    simp [closedFds, Event.closedFd?, openFds, hopen]
  · simp [closedFds, Event.closedFd?, hother, Ne.symm hother]

theorem settles_drain (stream : Stream) (answer : Option Bytes) (job : Job) :
    Settles job (job.drain stream answer) := by
  unfold drain
  split
  · rename_i hopen
    have hread : ∀ other, closedFds other
        [Event.readCalled job.id stream answer] = [] := fun _ => rfl
    cases answer with
    | none => exact settles_of_no_close (fun _ => rfl) hread
    | some bytes =>
        by_cases hbytes : bytes.length > 0
        · simp only [hbytes, if_true]
          exact settles_of_no_close (fun _ => fd_append bytes stream _ job)
            hread
        · simp only [hbytes, if_false]
          exact settles_close hopen _ hread
  · exact settles_of_no_close (fun _ => rfl) fun _ => rfl

theorem settles_closeRemaining (stream : Stream) (job : Job) :
    Settles job (job.closeRemaining stream) := by
  unfold closeRemaining
  split
  · rename_i hopen
    exact settles_close hopen [] fun _ => rfl
  · exact settles_of_no_close (fun _ => rfl) fun _ => rfl

theorem fd_closeRemaining (stream other : Stream) (job : Job) :
    (job.closeRemaining stream).value.fd other =
      if other = stream then -1 else job.fd other := by
  unfold closeRemaining
  split
  · exact fd_setFd _ _ _ _
  · rename_i hclosed
    split
    · rename_i hother
      rw [hother]
      simpa using hclosed
    · rfl

theorem fd_reap (now : SystemTime) (status : WaitStatus) (job : Job)
    (stream : Stream) : (job.reap now status).value.fd stream = -1 := by
  simp only [reap, Traced.value_bind, fd_closeRemaining]
  cases stream <;> simp

theorem settles_conclude (nowMs : UInt64) (answers : ScanAnswers) (job : Job)
    (outcome : ScanOutcome) :
    Settles job (job.conclude nowMs answers outcome) := by
  cases outcome with
  | reaped status =>
      exact @Settles.bind (job.finish answers.now status) _ _
        (settles_closeRemaining .stdout _) (settles_closeRemaining .stderr _)
  | expired | overCap =>
      refine settles_of_no_close (fun _ => by cases ‹Stream› <;> rfl) ?_
      intro stream
      simp only [conclude, terminate, signalGroup]
      split <;> rfl
  | truncated =>
      refine settles_of_no_close (fun stream => ?_) fun _ => rfl
      simp only [conclude, Traced.value_pure, enforceJobLogCap]
      split <;> cases stream <;> rfl
  | kept => exact settles_of_no_close (fun _ => rfl) fun _ => rfl

theorem settles_scan (nowMs : UInt64) (answers : ScanAnswers) (job : Job) :
    Settles job (job.scan nowMs answers) := by
  rw [scan_eq]
  refine Settles.bind (x := job.drainBoth answers)
    (Settles.bind (settles_drain .stdout _ job) (settles_drain .stderr _ _)) ?_
  generalize (job.drainBoth answers).value = drained
  have hwait : ∀ stream, closedFds stream (drained.wait answers).events = [] := by
    intro stream
    unfold wait
    split <;> rfl
  intro stream
  simp only [Traced.events_bind, Traced.value_bind, closedFds_append, hwait,
    List.nil_append]
  exact settles_conclude nowMs answers drained _ stream

theorem settles_cancel (answers : CancelAnswers) (job : Job) :
    Settles job (job.cancel answers) := by
  refine settles_of_no_close (fun stream => ?_) fun stream => ?_
  · rw [value_cancel]
    split
    · cases stream <;> rfl
    · rfl
  · rw [closedFds, events_cancel]
    split
    · rw [List.filterMap_map, List.filterMap_eq_nil_iff]
      exact fun _ _ => rfl
    · rfl

/-! Signals and polls only ever address the group of the job. -/

def Addresses (group : Int) (events : List Event) : Prop :=
  ∀ e ∈ events, ∀ pid, e.target? = some pid → pid = group ∧ 0 < pid

theorem Addresses.append {group : Int} {first second : List Event}
    (h : Addresses group first) (h' : Addresses group second) :
    Addresses group (first ++ second) := by
  intro e he
  rcases List.mem_append.mp he with hfirst | hsecond
  · exact h e hfirst
  · exact h' e hsecond

theorem addresses_of_no_target {group : Int} {events : List Event}
    (h : ∀ e ∈ events, e.target? = none) : Addresses group events := by
  intro e he pid hpid
  rw [h e he] at hpid
  contradiction

theorem addresses_drain (group : Int) (stream : Stream)
    (answer : Option Bytes) (job : Job) :
    Addresses group (job.drain stream answer).events := by
  apply addresses_of_no_target
  unfold drain
  split
  · cases answer with
    | none => simp [Event.target?]
    | some bytes =>
        by_cases hbytes : bytes.length > 0 <;> simp [hbytes, Event.target?]
  · simp

theorem addresses_closeRemaining (group : Int) (stream : Stream) (job : Job) :
    Addresses group (job.closeRemaining stream).events := by
  apply addresses_of_no_target
  unfold closeRemaining
  split <;> simp [Event.target?]

theorem addresses_signalGroup (signal : Signal) (job : Job) :
    Addresses job.processGroup (job.signalGroup signal).events := by
  unfold signalGroup
  split
  · rename_i hgroup
    simpa [Addresses, Event.target?] using hgroup
  · simp [Addresses]

theorem addresses_wait (answers : ScanAnswers) (job : Job) :
    Addresses job.processGroup (job.wait answers).events := by
  unfold wait
  split
  · rename_i hgroup
    simpa [Addresses, Event.target?] using hgroup
  · simp [Addresses]

theorem addresses_conclude (nowMs : UInt64) (answers : ScanAnswers)
    (job : Job) (outcome : ScanOutcome) :
    Addresses job.processGroup (job.conclude nowMs answers outcome).events := by
  cases outcome with
  | reaped status =>
      exact (addresses_closeRemaining _ .stdout _).append
        (addresses_closeRemaining _ .stderr _)
  | expired | overCap =>
      simp only [conclude, terminate, Traced.events_bind, Traced.events_pure,
        List.append_nil]
      exact addresses_signalGroup .sigterm job
  | truncated | kept => simp [conclude, Addresses]

theorem addresses_scan (nowMs : UInt64) (answers : ScanAnswers) (job : Job) :
    Addresses job.processGroup (job.scan nowMs answers).events := by
  have hgroup := processGroup_drainBoth answers job
  rw [scan_eq]
  refine Addresses.append ((addresses_drain _ .stdout _ _).append
    (addresses_drain _ .stderr _ _)) ?_
  rw [← hgroup]
  exact (addresses_wait answers _).append (addresses_conclude nowMs answers _ _)

theorem addresses_cancel (answers : CancelAnswers) (job : Job) :
    Addresses job.processGroup (job.cancel answers).events := by
  rw [events_cancel]
  split
  · rename_i hrunning
    intro e he pid hpid
    obtain ⟨signal, _, rfl⟩ := List.mem_map.mp he
    obtain rfl : job.processGroup = pid := Option.some.inj hpid
    exact ⟨rfl, hrunning.2⟩
  · simp [Addresses]

/-! Collecting the leader is what ends a scan by reaping. -/

theorem collectedLeaders_drain (stream : Stream) (answer : Option Bytes)
    (job : Job) : collectedLeaders (job.drain stream answer).events = [] := by
  unfold drain
  split
  · cases answer with
    | none => rfl
    | some bytes => by_cases hbytes : bytes.length > 0 <;>
        simp [hbytes, collectedLeaders, Event.collectedLeader?]
  · rfl

theorem collectedLeaders_drainBoth (answers : ScanAnswers) (job : Job) :
    collectedLeaders (job.drainBoth answers).events = [] := by
  rw [drainBoth, Traced.events_bind, collectedLeaders_append,
    collectedLeaders_drain, collectedLeaders_drain, List.append_nil]

theorem collectedLeaders_closeRemaining (stream : Stream) (job : Job) :
    collectedLeaders (job.closeRemaining stream).events = [] := by
  unfold closeRemaining
  split <;> rfl

theorem collectedLeaders_signalGroup (signal : Signal) (job : Job) :
    collectedLeaders (job.signalGroup signal).events = [] := by
  unfold signalGroup
  split <;> rfl

theorem collectedLeaders_wait (answers : ScanAnswers) (job : Job) :
    collectedLeaders (job.wait answers).events =
      if (job.collected? answers).isSome then [job.processGroup] else [] := by
  unfold wait collected?
  split
  · cases hanswer : answers.wait <;>
      simp [collectedLeaders, Event.collectedLeader?]
  · rfl

theorem collectedLeaders_conclude (nowMs : UInt64) (answers : ScanAnswers)
    (job : Job) (outcome : ScanOutcome) :
    collectedLeaders (job.conclude nowMs answers outcome).events = [] := by
  cases outcome with
  | reaped status =>
      simp only [conclude, reap, Traced.events_bind, collectedLeaders_append,
        collectedLeaders_closeRemaining, List.append_nil]
  | expired | overCap =>
      simp only [conclude, terminate, Traced.events_bind, Traced.events_pure,
        List.append_nil, collectedLeaders_signalGroup]
  | truncated | kept => rfl

theorem collectedLeaders_scan (nowMs : UInt64) (answers : ScanAnswers)
    (job : Job) :
    collectedLeaders (job.scan nowMs answers).events =
      if ((job.drainBoth answers).value.collected? answers).isSome then
        [job.processGroup]
      else
        [] := by
  rw [scan_eq, Traced.events_bind, collectedLeaders_append,
    collectedLeaders_drainBoth, Traced.events_bind, collectedLeaders_append,
    collectedLeaders_wait, collectedLeaders_conclude, List.nil_append,
    List.append_nil, processGroup_drainBoth]

theorem collectedLeaders_cancel (answers : CancelAnswers) (job : Job) :
    collectedLeaders (job.cancel answers).events = [] := by
  rw [collectedLeaders, events_cancel]
  split
  · rw [List.filterMap_map, List.filterMap_eq_nil_iff]
    exact fun _ _ => rfl
  · rfl

theorem not_isSome_of_status_scan {nowMs : UInt64} {answers : ScanAnswers}
    {job : Job} (h : (job.scan nowMs answers).value.status = .running) :
    ((job.drainBoth answers).value.collected? answers).isSome = false := by
  cases hcollected : (job.drainBoth answers).value.collected? answers with
  | none => rfl
  | some status =>
      rw [status_scan, scanOutcome, hcollected] at h
      simp only [ScanOutcome.status] at h
      split at h <;> simp at h

theorem processGroup_conclude (nowMs : UInt64) (answers : ScanAnswers)
    (job : Job) (outcome : ScanOutcome) :
    (job.conclude nowMs answers outcome).value.processGroup =
      job.processGroup := by
  cases outcome with
  | reaped status =>
      have hclose : ∀ stream (job : Job),
          (job.closeRemaining stream).value.processGroup =
            job.processGroup := by
        intro stream job
        unfold closeRemaining
        split <;> simp
      simp [conclude, reap, hclose, finish]
  | truncated =>
      simp only [conclude, Traced.value_pure, enforceJobLogCap]
      split <;> rfl
  | expired | overCap | kept => rfl

theorem processGroup_scan (nowMs : UInt64) (answers : ScanAnswers)
    (job : Job) :
    (job.scan nowMs answers).value.processGroup = job.processGroup := by
  rw [scan_eq]
  simp [processGroup_conclude]

end Job

theorem ignores_spawnAnswer? : Job.Ignores Event.spawnAnswer? := by
  constructor <;> intros <;> rfl

theorem spawnAnswers_scan (history : List Event) (nowMs : UInt64)
    (answers : ScanAnswers) (job : Job) :
    spawnAnswers (history ++ (job.scan nowMs answers).events) =
      spawnAnswers history := by
  rw [spawnAnswers_append, spawnAnswers, spawnAnswers,
    ignores_spawnAnswer?.scan, List.append_nil]

theorem spawnAnswers_cancel (history : List Event) (answers : CancelAnswers)
    (job : Job) :
    spawnAnswers (history ++ (job.cancel answers).events) =
      spawnAnswers history := by
  rw [spawnAnswers_append, spawnAnswers, spawnAnswers,
    ignores_spawnAnswer?.cancel, List.append_nil]

theorem spawnAnswers_spawnCalled {history : List Event}
    (hfresh : spawnAnswers history = []) (id : String) (answer : SpawnAnswer) :
    spawnAnswers (history ++ [.spawnCalled id answer]) = [answer] := by
  rw [spawnAnswers_append, hfresh]
  rfl

/-- The record of a job in any state of any run. -/
structure Record (job : Job) (history : List Event) : Prop where
  once : (spawnAnswers history).length ≤ 1
  queued : job.status = .queued → spawnAnswers history = []
  running : job.status = .running → ∃ answer ∈ spawnAnswers history,
    answer.processGroup? = some job.processGroup
  uncollected : job.status = .running → collectedLeaders history = []
  group : ∀ answer ∈ spawnAnswers history, ∀ group,
    answer.processGroup? = some group → job.processGroup = group
  ledger : ∀ stream, closedFds stream history ++ openFds (job.fd stream) =
    openedFds stream history
  targets : ∀ e ∈ history, ∀ pid, e.target? = some pid → 0 < pid ∧
    ∃ answer ∈ spawnAnswers history, answer.processGroup? = some pid

theorem collectedLeaders_eq_nil {events : List Event}
    (h : ∀ e ∈ events, e.target? = none) : collectedLeaders events = [] := by
  rw [collectedLeaders, List.filterMap_eq_nil_iff]
  intro e he
  cases e with
  | waitCalled job pid answer => simpa [Event.target?] using h _ he
  | _ => rfl

theorem eq_singleton_of_mem {α : Type*} {xs : List α} {x : α}
    (hlength : xs.length ≤ 1) (hx : x ∈ xs) : xs = [x] := by
  obtain ⟨y, rfl⟩ := List.length_eq_one_iff.mp
    (Nat.le_antisymm hlength (List.length_pos_of_mem hx))
  rw [List.mem_singleton.mp hx]

theorem newJob_record (id command : String) (limits : JobLimits)
    (now : SystemTime) :
    Record (newJob id command limits now) [.submitted id] where
  once := Nat.zero_le 1
  queued := fun _ => rfl
  running := by simp [newJob]
  uncollected := fun _ => rfl
  group := by
    intro answer hanswer
    contradiction
  ledger := by
    intro stream
    cases stream <;> rfl
  targets := by simp [Event.target?]

namespace Record

variable {job : Job} {history : List Event} (h : Record job history)

include h

theorem spawnAnswers_eq {answer : SpawnAnswer}
    (hanswer : answer ∈ spawnAnswers history) :
    spawnAnswers history = [answer] :=
  eq_singleton_of_mem h.once hanswer

/-- A running job was spawned successfully, with the group it carries. -/
theorem processGroup_of_running (hrunning : job.status = .running)
    {answer : SpawnAnswer} (hanswer : answer ∈ spawnAnswers history) :
    answer.processGroup? = some job.processGroup := by
  obtain ⟨spawned, hspawned, hgroup⟩ := h.running hrunning
  rw [h.spawnAnswers_eq hspawned, List.mem_singleton] at hanswer
  rwa [hanswer]

theorem start (nowMs : UInt64) (answer : SpawnAnswer)
    (hfresh : spawnAnswers history = []) :
    Record (job.start nowMs answer).value
      (history ++ (job.start nowMs answer).events) := by
  have hevents := job.events_start nowMs answer
  have hanswers := spawnAnswers_spawnCalled hfresh job.id answer
  have hempty : ∀ stream, closedFds stream history = [] ∧
      openFds (job.fd stream) = [] := by
    intro stream
    have hledger := h.ledger stream
    rwa [openedFds, hfresh, List.flatMap_nil, List.append_eq_nil_iff]
      at hledger
  have hnone : ∀ e ∈ history, e.target? = none := by
    intro e he
    cases htarget : e.target? with
    | none => rfl
    | some pid =>
        obtain ⟨_, answer, hanswer, _⟩ := h.targets e he pid htarget
        rw [hfresh] at hanswer
        contradiction
  rw [hevents]
  constructor
  case once =>
    rw [hanswers]
    exact le_rfl
  case queued =>
    intro hqueued
    rw [Job.status_start] at hqueued
    split at hqueued <;> simp at hqueued
  case running =>
    intro hrunning
    rw [hanswers]
    cases answer with
    | spawned processGroup leaderStartTime stdoutFd stderrFd =>
        exact ⟨_, List.mem_singleton_self _, rfl⟩
    | failed error finishedAt => simp [Job.status_start,
        SpawnAnswer.succeeded] at hrunning
  case uncollected =>
    intro _
    rw [collectedLeaders_append, collectedLeaders_eq_nil hnone]
    rfl
  case group =>
    intro other hother group hgroup
    rw [hanswers, List.mem_singleton] at hother
    rw [hother] at hgroup
    cases answer with
    | spawned processGroup leaderStartTime stdoutFd stderrFd =>
        exact Option.some.inj hgroup
    | failed error finishedAt => contradiction
  case ledger =>
    intro stream
    rw [closedFds_append, (hempty stream).1, openedFds, hanswers]
    cases answer with
    | spawned processGroup leaderStartTime stdoutFd stderrFd =>
        rw [List.flatMap_singleton]
        cases stream <;> rfl
    | failed error finishedAt =>
        have hopen := (hempty stream).2
        cases stream <;> exact hopen
  case targets =>
    intro e he pid htarget
    rcases List.mem_append.mp he with hold | hnew
    · rw [hnone e hold] at htarget
      contradiction
    · rw [List.mem_singleton.mp hnew] at htarget
      contradiction

theorem scan (nowMs : UInt64) (answers : ScanAnswers)
    (hrunning : job.status = .running) :
    Record (job.scan nowMs answers).value
      (history ++ (job.scan nowMs answers).events) := by
  have hanswers := spawnAnswers_scan history nowMs answers job
  have hgroup := Job.processGroup_scan nowMs answers job
  constructor
  case once =>
    rw [hanswers]
    exact h.once
  case queued =>
    intro hqueued
    have hguard : JobRunner.Guard job (.scan nowMs answers) := hrunning
    exact False.elim (JobRunner.status_act_ne_queued hguard hqueued)
  case running =>
    intro _
    rw [hanswers, hgroup]
    exact h.running hrunning
  case uncollected =>
    intro hstill
    rw [collectedLeaders_append, h.uncollected hrunning,
      Job.collectedLeaders_scan, Job.not_isSome_of_status_scan hstill]
    rfl
  case group =>
    rw [hanswers, hgroup]
    exact h.group
  case ledger =>
    intro stream
    rw [closedFds_append, List.append_assoc,
      Job.settles_scan nowMs answers job stream, h.ledger stream, openedFds,
      openedFds, hanswers]
  case targets =>
    intro e he pid htarget
    rw [hanswers]
    rcases List.mem_append.mp he with hold | hnew
    · exact h.targets e hold pid htarget
    · obtain ⟨rfl, hpos⟩ := Job.addresses_scan nowMs answers job e hnew pid
        htarget
      exact ⟨hpos, h.running hrunning⟩

theorem cancel (answers : CancelAnswers) :
    Record (job.cancel answers).value
      (history ++ (job.cancel answers).events) := by
  have hanswers := spawnAnswers_cancel history answers job
  have hnever : (job.cancel answers).value.status ≠ .running := by
    rw [Job.status_cancel]
    split
    · simp
    · rename_i hidle
      exact fun hrunning => hidle (.inl hrunning)
  constructor
  case once =>
    rw [hanswers]
    exact h.once
  case queued =>
    intro hqueued
    have hguard : JobRunner.Guard job (.cancel answers) := trivial
    exact False.elim (JobRunner.status_act_ne_queued hguard hqueued)
  case running =>
    exact fun hrunning => False.elim (hnever hrunning)
  case uncollected =>
    exact fun hrunning => False.elim (hnever hrunning)
  case group =>
    have hgroup : (job.cancel answers).value.processGroup =
        job.processGroup := by
      rw [Job.value_cancel]
      split <;> rfl
    rw [hanswers, hgroup]
    exact h.group
  case ledger =>
    intro stream
    rw [closedFds_append, List.append_assoc,
      Job.settles_cancel answers job stream, h.ledger stream, openedFds,
      openedFds, hanswers]
  case targets =>
    intro e he pid htarget
    rw [hanswers]
    rcases List.mem_append.mp he with hold | hnew
    · exact h.targets e hold pid htarget
    · have hrunning : job.status = .running := by
        rw [Job.events_cancel] at hnew
        split at hnew
        · rename_i hsignals
          exact hsignals.1
        · contradiction
      obtain ⟨rfl, hpos⟩ := Job.addresses_cancel answers job e hnew pid htarget
      exact ⟨hpos, h.running hrunning⟩

theorem act (action : JobAction)
    (hfits : JobRunner.Fits job history action) :
    Record (job.act action).value (history ++ (job.act action).events) := by
  cases action with
  | start nowMs answer => exact h.start nowMs answer hfits.2
  | scan nowMs answers => exact h.scan nowMs answers hfits.1
  | cancel answers => exact h.cancel answers

end Record

namespace JobRunner

theorem runJobs_record (maxConcurrentJobs : Nat) (ops : List Op) :
    Tracks Record (runJobs maxConcurrentJobs ops).value
      (runJobs maxConcurrentJobs ops).events :=
  tracks_run newJob_record
    (fun _ _ action hrecord hfits => hrecord.act action hfits)
    maxConcurrentJobs ops

end JobRunner

end HeidiKernel
