import HeidiKernel.Job.Lifecycle
import HeidiKernel.Job.Capture

namespace HeidiKernel

open HeidiKernel.Transition

/-! What the log cap leaves of a log. A job keeps the ends of what its pipes
delivered, within its cap whenever a tick leaves it running. -/

namespace Job

def logSize (job : Job) : Nat := job.output.length + job.error.length

theorem exceedsLogCap_iff {job : Job} :
    job.exceedsLogCap = true ↔ job.maxLogBytes < job.logSize := by
  simp [exceedsLogCap, logSize]

/-- Half of the cap goes to the output at most, so the rest of the budget is
never computed below zero. -/
theorem length_output_enforceJobLogCap_le {job : Job}
    (h : job.exceedsLogCap = true) :
    job.enforceJobLogCap.2.output.length ≤ job.maxLogBytes / 2 := by
  have hover : job.output.length + job.error.length > job.maxLogBytes :=
    exceedsLogCap_iff.mp h
  simp only [enforceJobLogCap, if_pos hover]
  split <;> simp <;> omega

theorem logSize_enforceJobLogCap_le (job : Job) :
    job.enforceJobLogCap.2.logSize ≤ job.maxLogBytes := by
  by_cases h : job.exceedsLogCap = true
  · have hkept := length_output_enforceJobLogCap_le h
    have hover : job.output.length + job.error.length > job.maxLogBytes :=
      exceedsLogCap_iff.mp h
    simp only [enforceJobLogCap, if_pos hover, logSize] at hkept ⊢
    generalize (if job.output.length > job.maxLogBytes / 2 then
      job.output.drop (job.output.length - job.maxLogBytes / 2)
      else job.output) = output at hkept ⊢
    split <;> simp <;> omega
  · rw [enforceJobLogCap_of_not_exceeds (Bool.eq_false_iff.mpr h)]
    rw [exceedsLogCap_iff] at h
    exact Nat.not_lt.mp h

theorem maxLogBytes_enforceJobLogCap (job : Job) :
    job.enforceJobLogCap.2.maxLogBytes = job.maxLogBytes := by
  unfold enforceJobLogCap
  split <;> rfl

/-- What the first call has cut fits, so the second call has nothing to do. -/
theorem enforceJobLogCap_twice (job : Job) :
    job.enforceJobLogCap.2.enforceJobLogCap =
      (false, job.enforceJobLogCap.2) := by
  apply enforceJobLogCap_of_not_exceeds
  rw [Bool.eq_false_iff, Ne, exceedsLogCap_iff, Nat.not_lt,
    maxLogBytes_enforceJobLogCap]
  exact job.logSize_enforceJobLogCap_le

theorem captured_enforceJobLogCap_suffix (stream : Stream) (job : Job) :
    job.enforceJobLogCap.2.captured stream <:+ job.captured stream := by
  unfold enforceJobLogCap
  split
  · cases stream with
    | stdout =>
        simp only [captured]
        split
        · exact List.drop_suffix _ _
        · exact List.suffix_rfl
    | stderr =>
        simp only [captured]
        generalize job.maxLogBytes - List.length _ = remaining
        split
        · exact List.drop_suffix _ _
        · exact List.suffix_rfl
  · exact List.suffix_rfl

/-- The counter covers what is kept. -/
def Counted (job : Job) : Prop := job.logSize ≤ job.bytesWritten

theorem counted_append {job : Job} (h : job.Counted) (bytes : Bytes)
    (stream : Stream) : (job.append bytes stream).Counted := by
  cases stream <;> simp [Counted, logSize, append] at h ⊢ <;> omega

theorem counted_setFd {job : Job} (h : job.Counted) (value : Int)
    (stream : Stream) : (job.setFd value stream).Counted := by
  cases stream <;> exact h

theorem counted_drain {job : Job} (h : job.Counted) (stream : Stream)
    (answer : Option Bytes) : (job.drain stream answer).value.Counted := by
  rcases drain_cases stream answer job with hsame | ⟨bytes, hmore⟩ | heof
  · rwa [hsame]
  · rw [hmore]
    exact counted_append h bytes stream
  · rw [heof]
    exact counted_setFd h _ stream

theorem counted_closeRemaining {job : Job} (h : job.Counted)
    (stream : Stream) : (job.closeRemaining stream).value.Counted := by
  unfold closeRemaining
  split
  · exact counted_setFd h _ stream
  · exact h

theorem counted_enforceJobLogCap {job : Job} (h : job.Counted) :
    job.enforceJobLogCap.2.Counted := by
  by_cases hexceeds : job.exceedsLogCap = true
  · have hover : job.output.length + job.error.length > job.maxLogBytes :=
      exceedsLogCap_iff.mp hexceeds
    have hwritten : job.enforceJobLogCap.2.bytesWritten = job.maxLogBytes := by
      simp [enforceJobLogCap, hover]
    rw [Counted, hwritten]
    exact job.logSize_enforceJobLogCap_le
  · rw [enforceJobLogCap_of_not_exceeds (Bool.eq_false_iff.mpr hexceeds)]
    exact h

theorem counted_conclude {nowMs : UInt64} {answers : ScanAnswers} {job : Job}
    (h : job.Counted) (outcome : ScanOutcome) :
    (job.conclude nowMs answers outcome).value.Counted := by
  cases outcome with
  | reaped status =>
      have hfinished : (job.finish answers.now status).Counted := h
      exact counted_closeRemaining
        (counted_closeRemaining hfinished .stdout) .stderr
  | truncated => exact counted_enforceJobLogCap h
  | expired | overCap => exact h
  | kept => exact h

theorem counted_scan {job : Job} (h : job.Counted) (nowMs : UInt64)
    (answers : ScanAnswers) : (job.scan nowMs answers).value.Counted := by
  rw [value_scan]
  exact counted_conclude
    (counted_drain (counted_drain h .stdout _) .stderr _) _

/-- Everything a scan keeps is an end of what the job had together with what
the scan has read. -/
theorem captured_scan_suffix (nowMs : UInt64) (answers : ScanAnswers)
    (job : Job) (stream : Stream) :
    (job.scan nowMs answers).value.captured stream <:+
      job.captured stream ++
        readBytes stream (job.scan nowMs answers).events := by
  have hdrain := (collects_drainBoth answers job).captured stream
  rw [value_scan, readBytes_scan_eq_drainBoth, ← hdrain]
  generalize (job.drainBoth answers).value = drained
  by_cases hcut : drained.scanOutcome nowMs answers = .truncated
  · rw [hcut]
    exact captured_enforceJobLogCap_suffix stream drained
  · rw [(captured_conclude hcut).1]

/-- A job still running after its scan is within its log cap. -/
theorem logSize_scan_le {nowMs : UInt64} {answers : ScanAnswers} {job : Job}
    (hrunning : (job.scan nowMs answers).value.status = .running) :
    (job.scan nowMs answers).value.logSize ≤
      (job.scan nowMs answers).value.maxLogBytes := by
  rw [status_scan] at hrunning
  rw [value_scan]
  generalize (job.drainBoth answers).value = drained at hrunning ⊢
  cases hend : drained.scanOutcome nowMs answers with
  | reaped status =>
      rw [hend, ScanOutcome.status] at hrunning
      split at hrunning <;> contradiction
  | expired | overCap =>
      rw [hend] at hrunning
      contradiction
  | truncated =>
      rw [conclude, Traced.value_pure, maxLogBytes_enforceJobLogCap]
      exact drained.logSize_enforceJobLogCap_le
  | kept =>
      have hfits : drained.exceedsLogCap = false := by
        unfold scanOutcome at hend
        split at hend
        · contradiction
        · split_ifs at hend with _ hlog
          exact Bool.eq_false_iff.mpr hlog
      rw [Bool.eq_false_iff, Ne, exceedsLogCap_iff] at hfits
      exact Nat.not_lt.mp hfits

end Job

/-- The log of a job in any state of any run. -/
structure Retains (job : Job) (history : List Event) : Prop where
  captures : Captures job history
  suffix : (∀ answer ∈ spawnAnswers history, answer.succeeded) →
    ∀ stream, job.captured stream <:+ readBytes stream history
  counted : (∀ answer ∈ spawnAnswers history, answer.succeeded) → job.Counted
  capped : (∀ answer ∈ spawnAnswers history, answer.succeeded) →
    job.status = .running → job.logSize ≤ job.maxLogBytes

namespace Retains

variable {job : Job} {history : List Event} (h : Retains job history)

include h

theorem start (nowMs : UInt64) (answer : SpawnAnswer)
    (hfits : JobRunner.Fits job history (.start nowMs answer)) :
    Retains (job.start nowMs answer).value
      (history ++ (job.start nowMs answer).events) := by
  have hcaptures := h.captures.start nowMs answer hfits
  have hfresh : spawnAnswers history = [] := hfits.2
  have hunspawned : ∀ answer ∈ spawnAnswers history, answer.succeeded := by
    simp [hfresh]
  have hnothing : ∀ stream, job.captured stream = [] := by
    intro stream
    have hsuffix := h.suffix hunspawned stream
    rw [h.captures.unread hfresh] at hsuffix
    exact List.suffix_nil.mp hsuffix
  cases answer with
  | spawned processGroup leaderStartTime stdoutFd stderrFd =>
      have hempty : job.logSize = 0 := by
        have houtput : job.output = [] := hnothing .stdout
        have herror : job.error = [] := hnothing .stderr
        simp [Job.logSize, houtput, herror]
      refine ⟨hcaptures, fun _ stream => ?_,
        fun _ => h.counted hunspawned, fun _ _ => ?_⟩
      · have hsame : ((job.start nowMs (.spawned processGroup leaderStartTime
            stdoutFd stderrFd)).value).captured stream = [] := by
          rw [← hnothing stream]
          cases stream <;> rfl
        rw [hsame]
        exact List.nil_suffix
      · exact hempty.le.trans (Nat.zero_le _)
  | failed error finishedAt =>
      have hfailed : ¬∀ answer ∈ spawnAnswers (history ++
          (job.start nowMs (.failed error finishedAt)).events),
          answer.succeeded := by
        intro hall
        have := hall (.failed error finishedAt) (by
          simp [Job.events_start, spawnAnswers, Event.spawnAnswer?])
        contradiction
      exact ⟨hcaptures, fun hall => absurd hall hfailed,
        fun hall => absurd hall hfailed, fun hall => absurd hall hfailed⟩

theorem scan (nowMs : UInt64) (answers : ScanAnswers)
    (hfits : JobRunner.Fits job history (.scan nowMs answers)) :
    Retains (job.scan nowMs answers).value
      (history ++ (job.scan nowMs answers).events) := by
  have hanswers := spawnAnswers_scan history nowMs answers job
  refine ⟨h.captures.scan nowMs answers hfits, ?_, ?_, ?_⟩
  · rw [hanswers]
    intro hspawned stream
    obtain ⟨dropped, hdropped⟩ := h.suffix hspawned stream
    rw [readBytes_append, ← hdropped, List.append_assoc]
    exact (Job.captured_scan_suffix nowMs answers job stream).trans
      (List.suffix_append _ _)
  · rw [hanswers]
    exact fun hspawned => Job.counted_scan (h.counted hspawned) nowMs answers
  · exact fun _ hrunning => Job.logSize_scan_le hrunning

theorem cancel (answers : CancelAnswers)
    (hfits : JobRunner.Fits job history (.cancel answers)) :
    Retains (job.cancel answers).value
      (history ++ (job.cancel answers).events) := by
  have hanswers := spawnAnswers_cancel history answers job
  have hread := fun stream => job.readBytes_cancel answers stream
  have hcaptures := h.captures.cancel answers hfits
  rw [Job.value_cancel] at hcaptures ⊢
  split at hcaptures
  · rename_i hstopped
    rw [if_pos hstopped]
    refine ⟨hcaptures, ?_, ?_, ?_⟩
    · rw [hanswers]
      intro hspawned stream
      rw [readBytes_append, hread, List.append_nil]
      have hsuffix := h.suffix hspawned stream
      cases stream <;> exact hsuffix
    · rw [hanswers]
      exact h.counted
    · intro _ hrunning
      contradiction
  · rename_i hended
    rw [if_neg hended]
    refine ⟨hcaptures, ?_, ?_, ?_⟩
    · rw [hanswers]
      intro hspawned stream
      rw [readBytes_append, hread, List.append_nil]
      exact h.suffix hspawned stream
    · rw [hanswers]
      exact h.counted
    · rw [hanswers]
      exact h.capped

theorem act (action : JobAction)
    (hfits : JobRunner.Fits job history action) :
    Retains (job.act action).value (history ++ (job.act action).events) := by
  cases action with
  | start nowMs answer => exact h.start nowMs answer hfits
  | scan nowMs answers => exact h.scan nowMs answers hfits
  | cancel answers => exact h.cancel answers hfits

end Retains

theorem newJob_retains (id command : String) (limits : JobLimits)
    (now : SystemTime) :
    Retains (newJob id command limits now) [.submitted id] where
  captures := newJob_captures id command limits now
  suffix := by
    intro _ stream
    cases stream <;> exact List.nil_suffix
  counted := fun _ => Nat.le_refl 0
  capped := by
    intro _ hrunning
    contradiction

namespace JobRunner

theorem runJobs_retains (maxConcurrentJobs : Nat) (ops : List Op) :
    Tracks Retains (runJobs maxConcurrentJobs ops).value
      (runJobs maxConcurrentJobs ops).events :=
  tracks_run newJob_retains
    (fun _ _ action hretains hfits => hretains.act action hfits)
    maxConcurrentJobs ops

/-- What every state of every run says about the log of a job that has been
spawned, and what the log cap does to any job. -/
theorem runJobs_log_retained {maxConcurrentJobs : Nat} {ops : List Op}
    {id : String} {answer : SpawnAnswer} {job : Job}
    (hspawn : .spawnCalled id answer ∈ (runJobs maxConcurrentJobs ops).events)
    (hspawned : answer.succeeded)
    (hjob : (runJobs maxConcurrentJobs ops).value.getJobStatus id =
      some job) :
    let delivered := fun stream =>
      readBytes stream (ownedBy id (runJobs maxConcurrentJobs ops).events)
    (∀ stream, job.captured stream <:+ delivered stream) ∧
      (job.logTruncated = false →
        ∀ stream, job.captured stream = delivered stream) ∧
      job.output.length + job.error.length ≤ job.bytesWritten ∧
      (job.status = .running →
        job.output.length + job.error.length ≤ job.maxLogBytes) ∧
      ∀ other : Job,
        (other.enforceJobLogCap.1 = true →
          other.enforceJobLogCap.2.output.length ≤ other.maxLogBytes) ∧
        other.enforceJobLogCap.2.enforceJobLogCap =
          (false, other.enforceJobLogCap.2) := by
  intro delivered
  obtain ⟨hmem, rfl⟩ := Data.Keyed.lookup?_sound hjob
  have hretains := (runJobs_retains maxConcurrentJobs ops).jobs job hmem
  have hanswers := hretains.captures.record.spawnAnswers_eq
    (mem_spawnAnswers_ownedBy.mpr hspawn)
  have hall : ∀ other ∈ spawnAnswers
      (ownedBy job.id (runJobs maxConcurrentJobs ops).events),
      other.succeeded := by
    intro other hother
    rw [hanswers, List.mem_singleton] at hother
    rwa [hother]
  refine ⟨hretains.suffix hall, hretains.captures.captured hall,
    hretains.counted hall, hretains.capped hall, fun other => ⟨?_, ?_⟩⟩
  · intro hcut
    rw [Job.enforceJobLogCap_fst] at hcut
    exact (Job.length_output_enforceJobLogCap_le hcut).trans
      (Nat.div_le_self _ _)
  · exact other.enforceJobLogCap_twice

def threeByteLog : List Op :=
  [.submit "yes" { maxLogBytes := 3 } 0 plainLayout,
    .tick { plainTick with
      scan := fun _ => { stdoutRead := some [1, 2, 3, 4] } },
    .tick { plainTick with
      scan := fun _ => { stderrRead := some [5, 6, 7] } }]

theorem threeByteLog_retained :
    ([4] : Bytes) <:+ [1, 2, 3, 4] ∧ ([6, 7] : Bytes) <:+ [5, 6, 7] := by
  have hlog := (@runJobs_log_retained 1 threeByteLog "job_1"
    (.spawned 4242 none 5 6) _ (by decide +kernel) rfl rfl).1
  exact ⟨hlog .stdout, hlog .stderr⟩

end JobRunner

end HeidiKernel
