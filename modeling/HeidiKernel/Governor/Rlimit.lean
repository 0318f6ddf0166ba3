import HeidiKernel.Governor.ProcessGovernor

namespace HeidiKernel.Gov

/-! Resource limits of a process under the governor. `prlimit` installs a pair
of limits on the target; `getrlimit` reads the limits of the governor itself. -/

inductive Resource
  | nofile
  | core
  deriving DecidableEq, Repr

structure Rlimit where
  cur : UInt64
  max : UInt64
  deriving DecidableEq, Repr

abbrev Limits := Resource → Rlimit

/-- What the calls of `apply_rlimit` answer: an `errno`, or success. -/
structure RlimitCalls where
  own : Limits
  getrlimit : Resource → Option Int := fun _ => none
  prlimit : Resource → Option Int := fun _ => none
  strerror : Int → Bytes

namespace RlimPolicy

def soft (rlim : RlimPolicy) : Resource → Option UInt64
  | .nofile => rlim.nofileSoft
  | .core => rlim.coreSoft

def hard (rlim : RlimPolicy) : Resource → Option UInt64
  | .nofile => rlim.nofileHard
  | .core => rlim.coreHard

end RlimPolicy

namespace Resource

def label : Resource → Bytes
  | .nofile => bytes "prlimit RLIMIT_NOFILE: "
  | .core => bytes "prlimit RLIMIT_CORE: "

end Resource

namespace RlimitCalls

variable (calls : RlimitCalls)

/-- `getrlimit(resource, &rl)` overwrites both halves. -/
def readOwn (resource : Resource) : Except ApplyResult Rlimit :=
  match calls.getrlimit resource with
  | some err => throw { err, errorDetail := calls.strerror err }
  | none => pure (calls.own resource)

/-- The struct a block hands to `prlimit`. -/
def fill (rlim : RlimPolicy) (resource : Resource) (rl : Rlimit) :
    Except ApplyResult Rlimit := do
  let rl ← match rlim.soft resource with
    | some soft => pure { rl with cur := soft }
    | none => calls.readOwn resource
  match rlim.hard resource with
  | some hard => pure { rl with max := hard }
  | none => calls.readOwn resource

/-- The block of `apply_rlimit` for one resource. It goes on with the struct
`rl` the block before it has left. -/
def setLimit (rlim : RlimPolicy) (resource : Resource) (rl : Rlimit)
    (target : Limits) : Except ApplyResult Rlimit × Limits :=
  if (rlim.soft resource).isSome ∨ (rlim.hard resource).isSome then
    match calls.fill rlim resource rl with
    | .error result => (.error result, target)
    | .ok rl =>
        match calls.prlimit resource with
        | some err =>
            (.error { err, errorDetail :=
              resource.label ++ calls.strerror err }, target)
        | none => (.ok rl, Function.update target resource rl)
  else
    (.ok rl, target)

/-- The struct `rl` starts uninitialised. -/
def applyRlimit (rlim : RlimPolicy) (rl : Rlimit) (target : Limits) :
    ApplyResult × Limits :=
  match calls.setLimit rlim .nofile rl target with
  | (.error result, target) => (result, target)
  | (.ok rl, target) =>
      match calls.setLimit rlim .core rl target with
      | (.error result, target) => (result, target)
      | (.ok _, target) => ({ success := true }, target)

end RlimitCalls

/-- The pair a block installs: a missing half is read into the whole struct. -/
def installed (own : Rlimit) : Option UInt64 → Option UInt64 → Rlimit → Rlimit
  | some soft, some hard, _ => ⟨soft, hard⟩
  | some _, none, _ => own
  | none, some hard, _ => ⟨own.cur, hard⟩
  | none, none, before => before

/-- What a policy asks for: the given halves, and the target's own for the
missing ones. -/
def requested (soft hard : Option UInt64) (before : Rlimit) : Rlimit :=
  ⟨soft.getD before.cur, hard.getD before.max⟩

/-- When the governor's own limits happen to be what is asked for. -/
def Coincides (own before : Rlimit) : Option UInt64 → Option UInt64 → Prop
  | some soft, none => own.cur = soft ∧ own.max = before.max
  | none, some _ => own.cur = before.cur
  | some _, some _ | none, none => True

theorem installed_eq_requested_iff (own before : Rlimit)
    (soft hard : Option UInt64) :
    installed own soft hard before = requested soft hard before ↔
      Coincides own before soft hard := by
  obtain ⟨ownCur, ownMax⟩ := own
  cases soft <;> cases hard <;>
    simp [installed, requested, Coincides]

namespace RlimitCalls

variable {calls : RlimitCalls} {rlim : RlimPolicy}

theorem readOwn_ok {resource : Resource} {rl : Rlimit}
    (h : calls.readOwn resource = .ok rl) : rl = calls.own resource := by
  unfold readOwn at h
  split at h
  · contradiction
  · exact (Except.ok.inj h).symm

theorem fill_ok {resource : Resource} {rl filled : Rlimit}
    (h : calls.fill rlim resource rl = .ok filled)
    (hgiven : (rlim.soft resource).isSome ∨ (rlim.hard resource).isSome)
    (before : Rlimit) :
    filled = installed (calls.own resource) (rlim.soft resource)
      (rlim.hard resource) before := by
  unfold fill at h
  cases hsoft : rlim.soft resource with
  | some soft =>
      cases hhard : rlim.hard resource with
      | some hard =>
          simp only [hsoft, hhard] at h
          exact (Except.ok.inj h).symm
      | none =>
          simp only [hsoft, hhard] at h
          exact readOwn_ok h
  | none =>
      cases hhard : rlim.hard resource with
      | some hard =>
          simp only [hsoft, hhard] at h
          cases hread : calls.readOwn resource with
          | error result =>
              rw [hread] at h
              contradiction
          | ok own =>
              rw [hread] at h
              rw [← Except.ok.inj h, readOwn_ok hread]
              rfl
      | none => simp [hsoft, hhard] at hgiven

/-- A block that goes through installs its pair and touches no other
resource. -/
theorem setLimit_ok {resource : Resource} {rl rl' : Rlimit}
    {before after : Limits}
    (h : calls.setLimit rlim resource rl before = (.ok rl', after)) :
    after = Function.update before resource
      (installed (calls.own resource) (rlim.soft resource)
        (rlim.hard resource) (before resource)) := by
  unfold setLimit at h
  split at h
  · rename_i hgiven
    cases hfill : calls.fill rlim resource rl with
    | error result => simp [hfill] at h
    | ok filled =>
        cases hset : calls.prlimit resource with
        | some err => simp [hfill, hset] at h
        | none =>
            simp only [hfill, hset, Prod.mk.injEq] at h
            rw [← h.2, fill_ok hfill hgiven (before resource)]
  · rename_i hmissing
    simp only [not_or, Bool.not_eq_true, Option.isSome_eq_false_iff,
      Option.isNone_iff_eq_none] at hmissing
    simp only [Prod.mk.injEq] at h
    rw [hmissing.1, hmissing.2, installed, Function.update_eq_self, h.2]

theorem readOwn_error {resource : Resource} {result : ApplyResult}
    (h : calls.readOwn resource = .error result) : result.success = false := by
  unfold readOwn at h
  split at h
  · rw [← Except.error.inj h]
  · contradiction

theorem fill_error {resource : Resource} {rl : Rlimit} {result : ApplyResult}
    (h : calls.fill rlim resource rl = .error result) :
    result.success = false := by
  unfold fill at h
  cases hread : calls.readOwn resource with
  | error other =>
      have hfailed := readOwn_error hread
      cases hsoft : rlim.soft resource <;> cases hhard : rlim.hard resource <;>
        simp only [hsoft, hhard, hread] at h
      · rwa [← Except.error.inj h]
      · rwa [← Except.error.inj h]
      · rwa [← Except.error.inj h]
      · contradiction
  | ok own =>
      cases hsoft : rlim.soft resource <;> cases hhard : rlim.hard resource <;>
        simp only [hsoft, hhard, hread] at h <;> contradiction

theorem setLimit_error {resource : Resource} {rl : Rlimit}
    {result : ApplyResult} {before after : Limits}
    (h : calls.setLimit rlim resource rl before = (.error result, after)) :
    result.success = false := by
  unfold setLimit at h
  split at h
  · cases hfill : calls.fill rlim resource rl with
    | error other =>
        simp only [hfill, Prod.mk.injEq, Except.error.injEq] at h
        rw [← h.1]
        exact fill_error hfill
    | ok filled =>
        cases hset : calls.prlimit resource with
        | some err =>
            simp only [hfill, hset, Prod.mk.injEq, Except.error.injEq] at h
            rw [← h.1]
        | none => simp [hfill, hset] at h
  · simp at h

theorem applyRlimit_success {rl : Rlimit} {before : Limits}
    (h : (calls.applyRlimit rlim rl before).1.success = true)
    (resource : Resource) :
    (calls.applyRlimit rlim rl before).2 resource =
      installed (calls.own resource) (rlim.soft resource)
        (rlim.hard resource) (before resource) := by
  unfold applyRlimit at h ⊢
  cases hnofile : calls.setLimit rlim .nofile rl before with
  | mk outcome between =>
      cases outcome with
      | error result =>
          simp only [hnofile] at h
          rw [setLimit_error hnofile] at h
          contradiction
      | ok rl' =>
          cases hcore : calls.setLimit rlim .core rl' between with
          | mk outcome after =>
              cases outcome with
              | error result =>
                  simp only [hnofile, hcore] at h
                  rw [setLimit_error hcore] at h
                  contradiction
              | ok _ =>
                  have hfirst := setLimit_ok hnofile
                  have hsecond := setLimit_ok hcore
                  simp only [hcore]
                  rw [hsecond, hfirst]
                  cases resource <;> simp [Function.update]

/-- A successful change sets exactly what was asked exactly if, for each
resource of which one half is missing, the governor's own limits coincide with
what is asked for. -/
theorem applyRlimit_requested_iff (calls : RlimitCalls) (rlim : RlimPolicy)
    (rl : Rlimit) (before : Limits)
    (h : (calls.applyRlimit rlim rl before).1.success = true) :
    (∀ resource, (calls.applyRlimit rlim rl before).2 resource =
      requested (rlim.soft resource) (rlim.hard resource)
        (before resource)) ↔
    ∀ resource, Coincides (calls.own resource) (before resource)
      (rlim.soft resource) (rlim.hard resource) := by
  simp only [applyRlimit_success h, installed_eq_requested_iff]

def ownLimits : RlimitCalls where
  own := fun _ => ⟨4096, 8192⟩
  strerror := fun _ => []

def bothHalves : RlimPolicy where
  nofileSoft := some 1024
  nofileHard := some 2048

theorem bothHalves_requested :
    let after := (ownLimits.applyRlimit bothHalves ⟨0, 0⟩
      fun _ => ⟨256, 512⟩).2
    after .nofile = requested (some 1024) (some 2048) ⟨256, 512⟩ ∧
      after .core = requested none none ⟨256, 512⟩ := by
  have hrequested :=
    (applyRlimit_requested_iff ownLimits bothHalves ⟨0, 0⟩
      (fun _ => ⟨256, 512⟩) rfl).mpr
        fun resource => by cases resource <;> exact trivial
  exact ⟨hrequested .nofile, hrequested .core⟩

/-- A soft limit of 1024 is asked for; the target gets the governor's pair. -/
theorem soft_limit_is_overwritten :
    let after := ownLimits.applyRlimit { nofileSoft := some 1024 } ⟨0, 0⟩
      fun _ => ⟨256, 512⟩
    after.1.success = true ∧ after.2 .nofile = ⟨4096, 8192⟩ ∧
      after.2 .nofile ≠ requested (some 1024) none ⟨256, 512⟩ := by
  decide +kernel

end RlimitCalls

end HeidiKernel.Gov
