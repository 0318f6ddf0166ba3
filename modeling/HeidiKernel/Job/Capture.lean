import HeidiKernel.Job.Record

namespace HeidiKernel

open HeidiKernel.Transition

/-! What a job has captured is what its pipes have delivered, until the log cap
cuts it. -/

def Event.delivered (stream : Stream) : Event → Bytes
  | .readCalled _ other (some bytes) => if other = stream then bytes else []
  | _ => []

def readBytes (stream : Stream) (events : List Event) : Bytes :=
  events.flatMap (Event.delivered stream)

@[simp] theorem readBytes_nil (stream : Stream) : readBytes stream [] = [] :=
  rfl

@[simp] theorem readBytes_append (stream : Stream)
    (first second : List Event) :
    readBytes stream (first ++ second) =
      readBytes stream first ++ readBytes stream second :=
  List.flatMap_append

namespace Job

theorem captured_append (bytes : Bytes) (stream other : Stream) (job : Job) :
    (job.append bytes stream).captured other =
      job.captured other ++ if stream = other then bytes else [] := by
  cases stream <;> cases other <;> simp [append, captured]

@[simp] theorem captured_setFd (value : Int) (stream other : Stream)
    (job : Job) : (job.setFd value stream).captured other =
      job.captured other := by
  cases stream <;> cases other <;> rfl

@[simp] theorem logTruncated_append (bytes : Bytes) (stream : Stream)
    (job : Job) : (job.append bytes stream).logTruncated =
      job.logTruncated := by
  cases stream <;> rfl

@[simp] theorem logTruncated_setFd (value : Int) (stream : Stream)
    (job : Job) : (job.setFd value stream).logTruncated =
      job.logTruncated := by
  cases stream <;> rfl

/-- A computation that adds to the captured streams what it reads. -/
structure Collects (job : Job) (x : Traced Event Job) : Prop where
  captured : ∀ stream, x.value.captured stream =
    job.captured stream ++ readBytes stream x.events
  logTruncated : x.value.logTruncated = job.logTruncated

theorem Collects.bind {job : Job} {x : Traced Event Job}
    {next : Job → Traced Event Job} (h : Collects job x)
    (h' : Collects x.value (next x.value)) : Collects job (x >>= next) where
  captured := by
    intro stream
    rw [Traced.value_bind, h'.captured, h.captured, Traced.events_bind,
      readBytes_append, List.append_assoc]
  logTruncated := h'.logTruncated.trans h.logTruncated

theorem collects_of_no_read {job : Job} {x : Traced Event Job}
    (hcaptured : ∀ stream, x.value.captured stream = job.captured stream)
    (hlog : x.value.logTruncated = job.logTruncated)
    (hread : ∀ stream, readBytes stream x.events = []) : Collects job x where
  captured := by
    intro stream
    rw [hread, List.append_nil, hcaptured]
  logTruncated := hlog

theorem collects_drain (stream : Stream) (answer : Option Bytes) (job : Job) :
    Collects job (job.drain stream answer) := by
  unfold drain
  split
  · cases answer with
    | none =>
        exact collects_of_no_read (fun _ => rfl) rfl fun _ => rfl
    | some bytes =>
        by_cases hbytes : bytes.length > 0
        · simp only [hbytes, if_true]
          refine ⟨fun other => ?_, logTruncated_append bytes stream job⟩
          exact (captured_append bytes stream other job).trans
            (by simp [readBytes, Event.delivered])
        · obtain rfl : bytes = [] :=
            List.eq_nil_of_length_eq_zero (Nat.eq_zero_of_not_pos hbytes)
          simp only [hbytes, if_false]
          refine collects_of_no_read (captured_setFd _ stream · job)
            (logTruncated_setFd _ stream job) fun other => ?_
          simp [readBytes, Event.delivered]
  · exact collects_of_no_read (fun _ => rfl) rfl fun _ => rfl

theorem collects_drainBoth (answers : ScanAnswers) (job : Job) :
    Collects job (job.drainBoth answers) :=
  (collects_drain .stdout _ job).bind (collects_drain .stderr _ _)

theorem fd_drain_other {stream other : Stream} (hother : other ≠ stream)
    (answer : Option Bytes) (job : Job) :
    (job.drain stream answer).value.fd other = job.fd other := by
  rcases drain_cases stream answer job with h | ⟨bytes, h⟩ | h
  · rw [h]
  · rw [h, fd_append]
  · rw [h, fd_setFd, if_neg hother]

theorem readBytes_drain (stream other : Stream) (answer : Option Bytes)
    (job : Job) :
    readBytes other (job.drain stream answer).events =
      if stream = other ∧ job.fd stream ≠ -1 then answer.getD [] else [] := by
  unfold drain
  by_cases hopen : job.fd stream = -1
  · simp [hopen, readBytes]
  · cases answer with
    | none => simp [hopen, readBytes, Event.delivered]
    | some bytes =>
        by_cases hbytes : bytes.length > 0 <;>
          simp [hopen, hbytes, readBytes, Event.delivered]

theorem readBytes_closeRemaining (stream other : Stream) (job : Job) :
    readBytes other (job.closeRemaining stream).events = [] := by
  unfold closeRemaining
  split <;> rfl

theorem readBytes_signalGroup (stream : Stream) (signal : Signal) (job : Job) :
    readBytes stream (job.signalGroup signal).events = [] := by
  unfold signalGroup
  split <;> rfl

theorem readBytes_conclude (nowMs : UInt64) (answers : ScanAnswers)
    (job : Job) (outcome : ScanOutcome) (stream : Stream) :
    readBytes stream (job.conclude nowMs answers outcome).events = [] := by
  cases outcome with
  | reaped status =>
      simp only [conclude, reap, Traced.events_bind, readBytes_append,
        readBytes_closeRemaining, List.append_nil]
  | expired | overCap =>
      simp only [conclude, terminate, Traced.events_bind, Traced.events_pure,
        List.append_nil, readBytes_signalGroup]
  | truncated | kept => rfl

theorem readBytes_wait (answers : ScanAnswers) (stream : Stream) (job : Job) :
    readBytes stream (job.wait answers).events = [] := by
  unfold wait
  split <;> rfl

theorem readBytes_scan (nowMs : UInt64) (answers : ScanAnswers) (job : Job)
    (stream : Stream) :
    readBytes stream (job.scan nowMs answers).events =
      if job.fd stream ≠ -1 then (answers.read stream).getD [] else [] := by
  rw [scan_eq, Traced.events_bind, readBytes_append, Traced.events_bind,
    readBytes_append, readBytes_wait, readBytes_conclude, drainBoth,
    Traced.events_bind, readBytes_append, readBytes_drain, readBytes_drain]
  cases stream with
  | stdout => simp [ScanAnswers.read]
  | stderr =>
      have hother : Stream.stderr ≠ .stdout := by simp
      simp [ScanAnswers.read, fd_drain_other hother]

theorem readBytes_cancel (answers : CancelAnswers) (stream : Stream)
    (job : Job) : readBytes stream (job.cancel answers).events = [] := by
  rw [readBytes, events_cancel]
  split
  · rw [List.flatMap_map, List.flatMap_eq_nil_iff]
    exact fun _ _ => rfl
  · rfl

theorem captured_closeRemaining (stream other : Stream) (job : Job) :
    (job.closeRemaining stream).value.captured other = job.captured other ∧
      (job.closeRemaining stream).value.logTruncated = job.logTruncated := by
  unfold closeRemaining
  split <;> simp

/-- Unless the log cap cuts it, the log survives the end of a scan. -/
theorem captured_conclude {nowMs : UInt64} {answers : ScanAnswers} {job : Job}
    {outcome : ScanOutcome} (houtcome : outcome ≠ .truncated) :
    (∀ stream, (job.conclude nowMs answers outcome).value.captured stream =
      job.captured stream) ∧
    (job.conclude nowMs answers outcome).value.logTruncated =
      job.logTruncated := by
  cases outcome with
  | reaped status =>
      constructor
      · intro stream
        simp only [conclude, reap, Traced.value_bind,
          (captured_closeRemaining _ _ _).1]
        cases stream <;> rfl
      · exact (captured_closeRemaining .stderr .stderr _).2.trans
          (captured_closeRemaining .stdout .stdout _).2
  | truncated => contradiction
  | expired | overCap =>
      exact ⟨fun stream => by cases stream <;> rfl, rfl⟩
  | kept => exact ⟨fun _ => rfl, rfl⟩

theorem readBytes_scan_eq_drainBoth (nowMs : UInt64) (answers : ScanAnswers)
    (job : Job) (stream : Stream) :
    readBytes stream (job.scan nowMs answers).events =
      readBytes stream (job.drainBoth answers).events := by
  rw [scan_eq, Traced.events_bind, readBytes_append, Traced.events_bind,
    readBytes_append, readBytes_wait, readBytes_conclude]
  simp

/-- A scan appends what it reads, or marks the log as truncated. -/
theorem captured_scan {nowMs : UInt64} {answers : ScanAnswers} {job : Job}
    (h : (job.scan nowMs answers).value.logTruncated = false) :
    job.logTruncated = false ∧ ∀ stream,
      (job.scan nowMs answers).value.captured stream =
        job.captured stream ++
          readBytes stream (job.scan nowMs answers).events := by
  have hdrain := collects_drainBoth answers job
  have hvalue := value_scan nowMs answers job
  have houtcome :
      (job.drainBoth answers).value.scanOutcome nowMs answers ≠
        .truncated := by
    intro hend
    have hcap : (job.drainBoth answers).value.exceedsLogCap = true := by
      simp only [scanOutcome] at hend
      split at hend
      · contradiction
      · split_ifs at hend with _ hexceeds
        exact hexceeds
    have hover : (job.drainBoth answers).value.output.length +
        (job.drainBoth answers).value.error.length >
          (job.drainBoth answers).value.maxLogBytes := by
      simpa [exceedsLogCap] using hcap
    rw [hvalue, hend] at h
    simp [conclude, enforceJobLogCap, hover] at h
  obtain ⟨hcaptured, hlog⟩ :=
    @captured_conclude nowMs answers (job.drainBoth answers).value _ houtcome
  rw [hvalue, hlog, hdrain.logTruncated] at h
  refine ⟨h, fun stream => ?_⟩
  rw [hvalue, hcaptured, hdrain.captured, readBytes_scan_eq_drainBoth]

/-- Reaping leaves the mark of the log cap as it is. -/
theorem logTruncated_scan_of_isSome {nowMs : UInt64} {answers : ScanAnswers}
    {job : Job}
    (h : ((job.drainBoth answers).value.collected? answers).isSome) :
    (job.scan nowMs answers).value.logTruncated = job.logTruncated := by
  obtain ⟨status, hstatus⟩ := Option.isSome_iff_exists.mp h
  have hend : (job.drainBoth answers).value.scanOutcome nowMs answers =
      .reaped status := by
    simp [scanOutcome, hstatus]
  have hkept := (@captured_conclude nowMs answers
    (job.drainBoth answers).value (.reaped status) (by simp)).2
  rw [scan_eq, Traced.value_bind, Traced.value_bind, hend, hkept]
  exact (collects_drainBoth answers job).logTruncated

end Job

/-- The log of a spawned job in any state of any run. -/
structure Captures (job : Job) (history : List Event) : Prop where
  record : Record job history
  unread : spawnAnswers history = [] → ∀ stream,
    readBytes stream history = []
  captured : (∀ answer ∈ spawnAnswers history, answer.succeeded) →
    job.logTruncated = false → ∀ stream,
      job.captured stream = readBytes stream history
  collected : collectedLeaders history ≠ [] →
    job.status = .completed ∨ job.status = .failed

namespace Captures

variable {job : Job} {history : List Event} (h : Captures job history)

include h

theorem start (nowMs : UInt64) (answer : SpawnAnswer)
    (hfits : JobRunner.Fits job history (.start nowMs answer)) :
    Captures (job.start nowMs answer).value
      (history ++ (job.start nowMs answer).events) := by
  have hfresh : spawnAnswers history = [] := hfits.2
  have hevents := job.events_start nowMs answer
  have hanswers := spawnAnswers_spawnCalled hfresh job.id answer
  refine ⟨h.record.act _ hfits, ?_, ?_, ?_⟩
  · rw [hevents, hanswers]
    intro hnil
    contradiction
  · rw [hevents, hanswers]
    intro hspawned hlog stream
    have hok := hspawned answer (List.mem_singleton_self _)
    rw [readBytes_append, h.unread hfresh]
    have hempty := h.captured (by simp [hfresh])
    cases answer with
    | spawned processGroup leaderStartTime stdoutFd stderrFd =>
        have hnil := (hempty hlog stream).trans (h.unread hfresh stream)
        cases stream <;> exact hnil
    | failed error finishedAt => contradiction
  · rw [hevents, collectedLeaders_append]
    intro hcollected
    rcases h.collected (by simpa [collectedLeaders, Event.collectedLeader?]
      using hcollected) with hstatus | hstatus <;>
        rcases hfits.1 with hguard | hguard <;> simp [hstatus] at hguard

theorem scan (nowMs : UInt64) (answers : ScanAnswers)
    (hfits : JobRunner.Fits job history (.scan nowMs answers)) :
    Captures (job.scan nowMs answers).value
      (history ++ (job.scan nowMs answers).events) := by
  have hrunning : job.status = .running := hfits.1
  have hanswers := spawnAnswers_scan history nowMs answers job
  refine ⟨h.record.act _ hfits, ?_, ?_, ?_⟩
  · rw [hanswers]
    intro hnil
    obtain ⟨answer, hanswer, _⟩ := h.record.running hrunning
    rw [hnil] at hanswer
    contradiction
  · rw [hanswers]
    intro hspawned hlog stream
    obtain ⟨hbefore, hcaptured⟩ := Job.captured_scan hlog
    rw [hcaptured, h.captured hspawned hbefore, readBytes_append]
  · rw [collectedLeaders_append, h.record.uncollected hrunning,
      List.nil_append, Job.collectedLeaders_scan]
    intro hcollected
    cases hstatus : (job.drainBoth answers).value.collected? answers with
    | none => simp [hstatus] at hcollected
    | some status =>
        rw [Job.status_scan, Job.scanOutcome, hstatus]
        simp only [ScanOutcome.status]
        split
        · exact .inl rfl
        · exact .inr rfl

theorem cancel (answers : CancelAnswers)
    (hfits : JobRunner.Fits job history (.cancel answers)) :
    Captures (job.cancel answers).value
      (history ++ (job.cancel answers).events) := by
  have hanswers := spawnAnswers_cancel history answers job
  have hread := fun stream => job.readBytes_cancel answers stream
  have hleaders := job.collectedLeaders_cancel answers
  have hkept : (∀ stream, (job.cancel answers).value.captured stream =
        job.captured stream) ∧
      (job.cancel answers).value.logTruncated = job.logTruncated := by
    rw [Job.value_cancel]
    split
    · exact ⟨fun stream => by cases stream <;> rfl, rfl⟩
    · exact ⟨fun _ => rfl, rfl⟩
  refine ⟨h.record.act _ hfits, ?_, ?_, ?_⟩
  · intro hnil stream
    rw [hanswers] at hnil
    rw [readBytes_append, hread, h.unread hnil, List.append_nil]
  · rw [hanswers, hkept.2]
    intro hspawned hlog stream
    rw [readBytes_append, hread, List.append_nil, hkept.1,
      h.captured hspawned hlog]
  · rw [collectedLeaders_append, hleaders, List.append_nil]
    intro hcollected
    rw [Job.status_cancel]
    rcases h.collected hcollected with hstatus | hstatus <;> simp [hstatus]

theorem act (action : JobAction)
    (hfits : JobRunner.Fits job history action) :
    Captures (job.act action).value (history ++ (job.act action).events) := by
  cases action with
  | start nowMs answer => exact h.start nowMs answer hfits
  | scan nowMs answers => exact h.scan nowMs answers hfits
  | cancel answers => exact h.cancel answers hfits

end Captures

theorem newJob_captures (id command : String) (limits : JobLimits)
    (now : SystemTime) :
    Captures (newJob id command limits now) [.submitted id] where
  record := newJob_record id command limits now
  unread := fun _ _ => rfl
  captured := by
    intro _ _ stream
    cases stream <;> rfl
  collected := by
    intro hcollected
    contradiction

namespace JobRunner

theorem runJobs_captures (maxConcurrentJobs : Nat) (ops : List Op) :
    Tracks Captures (runJobs maxConcurrentJobs ops).value
      (runJobs maxConcurrentJobs ops).events :=
  tracks_run newJob_captures
    (fun _ _ action hcaptures hfits => hcaptures.act action hfits)
    maxConcurrentJobs ops

end JobRunner

end HeidiKernel
