import HeidiKernel.Job.Actions

namespace HeidiKernel

open HeidiKernel.Transition

/-! Whatever happens to a job, it stays the same job: its id, its command and
its limits are never written, and every call is made on its behalf. -/

namespace Job

structure SameAs (before after : Job) : Prop where
  id : after.id = before.id
  command : after.command = before.command
  createdAt : after.createdAt = before.createdAt
  maxRuntimeMs : after.maxRuntimeMs = before.maxRuntimeMs
  maxLogBytes : after.maxLogBytes = before.maxLogBytes
  maxOutputLineBytes : after.maxOutputLineBytes = before.maxOutputLineBytes
  maxChildProcesses : after.maxChildProcesses = before.maxChildProcesses

theorem SameAs.refl (job : Job) : SameAs job job :=
  ⟨rfl, rfl, rfl, rfl, rfl, rfl, rfl⟩

theorem SameAs.trans {first second third : Job} (h : SameAs first second)
    (h' : SameAs second third) : SameAs first third where
  id := h'.id.trans h.id
  command := h'.command.trans h.command
  createdAt := h'.createdAt.trans h.createdAt
  maxRuntimeMs := h'.maxRuntimeMs.trans h.maxRuntimeMs
  maxLogBytes := h'.maxLogBytes.trans h.maxLogBytes
  maxOutputLineBytes := h'.maxOutputLineBytes.trans h.maxOutputLineBytes
  maxChildProcesses := h'.maxChildProcesses.trans h.maxChildProcesses

/-- A computation on behalf of `job` whose outcome, read by `f`, is still that
job. -/
structure Keeps (job : Job) {α : Type} (x : Traced Event α)
    (f : α → Job) : Prop where
  same : SameAs job (f x.value)
  owner : ∀ e ∈ x.events, e.owner = job.id

abbrev Stays (job : Job) (x : Traced Event Job) : Prop :=
  Keeps job x fun after => after

theorem Keeps.pure {job : Job} {α : Type} {value : α} {f : α → Job}
    (h : SameAs job (f value)) :
    Keeps job (Pure.pure value : Traced Event α) f :=
  ⟨h, by simp⟩

theorem Keeps.bind {job : Job} {α β : Type} {x : Traced Event α}
    {next : α → Traced Event β} {f : α → Job} {g : β → Job}
    (h : Keeps job x f)
    (h' : Keeps (f x.value) (next x.value) g) :
    Keeps job (x >>= next) g where
  same := h.same.trans h'.same
  owner := by
    intro e he
    rcases List.mem_append.mp he with hfirst | hnext
    · exact h.owner e hfirst
    · exact (h'.owner e hnext).trans h.same.id

theorem Keeps.log {job : Job} {e : Event} (h : e.owner = job.id) {β : Type}
    {next : PUnit → Traced Event β} {g : β → Job}
    (h' : Keeps job (next ⟨⟩) g) :
    Keeps job (Traced.log e >>= next) g :=
  Keeps.bind (x := Traced.log e) (f := fun _ => job)
    ⟨.refl job, by simpa using h⟩ h'

theorem stays_start (nowMs : UInt64) (answer : SpawnAnswer) (job : Job) :
    Stays job (job.start nowMs answer) := by
  apply Keeps.log rfl
  cases answer <;> exact Keeps.pure ⟨rfl, rfl, rfl, rfl, rfl, rfl, rfl⟩

theorem sameAs_append (bytes : Bytes) (stream : Stream) (job : Job) :
    SameAs job (job.append bytes stream) := by
  cases stream <;> exact ⟨rfl, rfl, rfl, rfl, rfl, rfl, rfl⟩

theorem sameAs_setFd (value : Int) (stream : Stream) (job : Job) :
    SameAs job (job.setFd value stream) := by
  cases stream <;> exact ⟨rfl, rfl, rfl, rfl, rfl, rfl, rfl⟩

theorem stays_drain (stream : Stream) (answer : Option Bytes) (job : Job) :
    Stays job (job.drain stream answer) := by
  unfold drain
  split
  · apply Keeps.log rfl
    cases answer with
    | none => exact Keeps.pure (.refl job)
    | some bytes =>
        simp only
        split
        · exact Keeps.pure (sameAs_append bytes stream job)
        · exact Keeps.log rfl (Keeps.pure (sameAs_setFd _ stream job))
  · exact Keeps.pure (.refl job)

theorem stays_drainBoth (answers : ScanAnswers) (job : Job) :
    Stays job (job.drainBoth answers) :=
  Keeps.bind (stays_drain .stdout _ job) (stays_drain .stderr _ _)

theorem stays_closeRemaining (stream : Stream) (job : Job) :
    Stays job (job.closeRemaining stream) := by
  unfold closeRemaining
  split
  · exact Keeps.log rfl (Keeps.pure (sameAs_setFd _ stream job))
  · exact Keeps.pure (.refl job)

theorem stays_reap (now : SystemTime) (status : WaitStatus) (job : Job) :
    Stays job (job.reap now status) := by
  have hfinish : SameAs job (job.finish now status) :=
    ⟨rfl, rfl, rfl, rfl, rfl, rfl, rfl⟩
  have hclose : Stays (job.finish now status) (job.reap now status) :=
    Keeps.bind (stays_closeRemaining .stdout _)
      (stays_closeRemaining .stderr _)
  exact ⟨hfinish.trans hclose.same, hclose.owner⟩

theorem keeps_signalGroup (signal : Signal) (job : Job) :
    Keeps job (job.signalGroup signal) fun _ => job := by
  unfold signalGroup
  split
  · exact ⟨.refl job, by simp [Event.owner]⟩
  · exact Keeps.pure (.refl job)

theorem keeps_wait (answers : ScanAnswers) (job : Job) :
    Keeps job (job.wait answers) fun _ => job := by
  unfold wait
  split
  · exact Keeps.log rfl (Keeps.pure (.refl job))
  · exact Keeps.bind (f := fun _ => job) (Keeps.pure (.refl job))
      (Keeps.pure (.refl job))

theorem keeps_enforceJobTimeout (nowMs : UInt64) (now : SystemTime)
    (job : Job) :
    Keeps job (job.enforceJobTimeout nowMs now) Prod.snd := by
  unfold enforceJobTimeout
  split
  · exact Keeps.bind (keeps_signalGroup .sigterm job)
      (Keeps.pure ⟨rfl, rfl, rfl, rfl, rfl, rfl, rfl⟩)
  · exact Keeps.pure (.refl job)

theorem sameAs_enforceJobLogCap (job : Job) :
    SameAs job job.enforceJobLogCap.2 := by
  unfold enforceJobLogCap
  split
  · exact ⟨rfl, rfl, rfl, rfl, rfl, rfl, rfl⟩
  · exact .refl job

theorem keeps_enforceJobProcessCap (nowMs : UInt64) (answers : ScanAnswers)
    (job : Job) :
    Keeps job (job.enforceJobProcessCap nowMs answers) Prod.snd := by
  unfold enforceJobProcessCap
  split
  · exact Keeps.pure (.refl job)
  · split
    · exact Keeps.pure (.refl job)
    · split
      · exact Keeps.bind (keeps_signalGroup .sigterm job)
          (Keeps.pure ⟨rfl, rfl, rfl, rfl, rfl, rfl, rfl⟩)
      · exact Keeps.pure (.refl job)

theorem stays_enforceLimits (nowMs : UInt64) (answers : ScanAnswers)
    (job : Job) : Stays job (job.enforceLimits nowMs answers) := by
  unfold enforceLimits
  apply Keeps.bind (keeps_enforceJobTimeout nowMs answers.now job)
  rcases (job.enforceJobTimeout nowMs answers.now).value with ⟨expired, timed⟩
  cases expired with
  | true => exact Keeps.pure (.refl timed)
  | false =>
      have hcapped := sameAs_enforceJobLogCap timed
      rcases hcap : timed.enforceJobLogCap with ⟨truncated, capped⟩
      simp only [hcap] at hcapped ⊢
      cases truncated with
      | true => exact Keeps.pure hcapped
      | false =>
          have hprocess := keeps_enforceJobProcessCap nowMs answers capped
          refine ⟨hcapped.trans hprocess.same, ?_⟩
          intro e he
          simp only [Bool.false_eq_true, if_false, Traced.events_bind,
            Traced.events_pure, List.append_nil] at he
          exact (hprocess.owner e he).trans hcapped.id

theorem stays_scan (nowMs : UInt64) (answers : ScanAnswers) (job : Job) :
    Stays job (job.scan nowMs answers) := by
  apply Keeps.bind (stays_drainBoth answers job)
  apply Keeps.bind (keeps_wait answers _)
  cases (((job.drainBoth answers).value.wait answers).value) with
  | some status => exact stays_reap _ _ _
  | none => exact stays_enforceLimits _ _ _

theorem stays_cancel (answers : CancelAnswers) (job : Job) :
    Stays job (job.cancel answers) := by
  unfold cancel
  simp only
  split
  · apply Keeps.bind (keeps_signalGroup .sigterm job)
    apply Keeps.bind (keeps_signalGroup .probe job)
    split
    · exact Keeps.bind (keeps_signalGroup .sigkill job)
        (Keeps.pure ⟨rfl, rfl, rfl, rfl, rfl, rfl, rfl⟩)
    · exact Keeps.bind (f := fun _ => job) (Keeps.pure (.refl job))
        (Keeps.pure ⟨rfl, rfl, rfl, rfl, rfl, rfl, rfl⟩)
  · split
    · exact Keeps.pure ⟨rfl, rfl, rfl, rfl, rfl, rfl, rfl⟩
    · exact Keeps.pure (.refl job)

theorem stays_act (action : JobAction) (job : Job) :
    Stays job (job.act action) := by
  cases action with
  | start nowMs answer => exact stays_start nowMs answer job
  | scan nowMs answers => exact stays_scan nowMs answers job
  | cancel answers => exact stays_cancel answers job

theorem stays_run (actions : List JobAction) (job : Job) :
    Stays job (jobMachine.run job actions) := by
  induction actions generalizing job with
  | nil => exact Keeps.pure (.refl job)
  | cons action actions ih => exact Keeps.bind (stays_act action job) (ih _)

@[simp] theorem id_start (nowMs : UInt64) (answer : SpawnAnswer) (job : Job) :
    (job.start nowMs answer).value.id = job.id :=
  (stays_start nowMs answer job).same.id

@[simp] theorem id_scan (nowMs : UInt64) (answers : ScanAnswers) (job : Job) :
    (job.scan nowMs answers).value.id = job.id :=
  (stays_scan nowMs answers job).same.id

@[simp] theorem id_act (action : JobAction) (job : Job) :
    (job.act action).value.id = job.id :=
  (stays_act action job).same.id

@[simp] theorem id_run (actions : List JobAction) (job : Job) :
    (jobMachine.run job actions).value.id = job.id :=
  (stays_run actions job).same.id

end Job

end HeidiKernel
