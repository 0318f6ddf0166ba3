import HeidiKernel.Governor.CpuList
import HeidiKernel.Governor.Rlimit
import HeidiKernel.Transition.Traced

namespace HeidiKernel.Gov

open HeidiKernel.Transition
open HeidiKernel.Data.Numeric (ConversionError printInt)
open HeidiKernel.CpuList (CpuSet)

/-! `apply_rules`. The settings a message asks for are applied one after the
other, until one of them fails. -/

inductive Setting
  | cpuAffinity
  | cpuNice
  | rlimNofile
  | rlimCore
  | oomScoreAdj
  deriving DecidableEq, Repr

/-- The bit of a setting in `ApplyField`. -/
def Setting.field : Setting → UInt8
  | .cpuAffinity => 0x1
  | .cpuNice => 0x2
  | .rlimNofile => 0x20
  | .rlimCore => 0x40
  | .oomScoreAdj => 0x80

def Resource.setting : Resource → Setting
  | .nofile => .rlimNofile
  | .core => .rlimCore

/-- A result with its `applied_fields`. -/
structure RulesResult extends ApplyResult where
  appliedFields : UInt8 := 0
  deriving DecidableEq, Repr

/-- What the system calls of `apply_rules` answer: an `errno`, or success. The
`write` answers the number of bytes and leaves an `errno`. -/
structure RuleCalls extends RlimitCalls where
  alive : Bool := true
  limits : Limits
  setaffinity : CpuSet → Option Int := fun _ => none
  setpriority : Int8 → Option Int := fun _ => none
  openScore : Option Int := none
  writeScore : Bytes → Int × Int := fun text => (text.length, 0)

def esrch : Int := 3

def einval : Int := 22

namespace RuleCalls

variable (calls : RuleCalls)

/-! The helpers. Each logs the settings of the target that its system calls have
changed. -/

def applyAffinity (affinity : Bytes) :
    Except ConversionError (Traced Setting ApplyResult) := do
  match ← parseCpuList affinity with
  | none =>
      pure ⟨{ err := einval, errorDetail := bytes "invalid CPU list format" }, []⟩
  | some mask =>
      match calls.setaffinity mask with
      | some err => pure ⟨{ err, errorDetail := calls.strerror err }, []⟩
      | none => pure ⟨{ success := true }, [.cpuAffinity]⟩

def applyNice (nice : Int8) : Traced Setting ApplyResult :=
  match calls.setpriority nice with
  | some err => ⟨{ err, errorDetail := calls.strerror err }, []⟩
  | none => ⟨{ success := true }, [.cpuNice]⟩

/-- The setting a block of `apply_rlimit` that goes through has changed. -/
def limitSetting (rlim : RlimPolicy) (resource : Resource) : List Setting :=
  if (rlim.soft resource).isSome ∨ (rlim.hard resource).isSome then
    [resource.setting]
  else
    []

/-- `rl` is not initialised. -/
def applyLimits (rlim : RlimPolicy) (rl : Rlimit) :
    Traced Setting ApplyResult where
  value := (calls.applyRlimit rlim rl calls.limits).1
  events :=
    match calls.setLimit rlim .nofile rl calls.limits with
    | (.error _, _) => []
    | (.ok rl, target) =>
        limitSetting rlim .nofile ++
          match calls.setLimit rlim .core rl target with
          | (.error _, _) => []
          | (.ok _, _) => limitSetting rlim .core

/-- Any byte that is written changes the score. -/
def applyOomScoreAdj (adj : Int32) : Traced Setting ApplyResult :=
  match calls.openScore with
  | some err => ⟨{ err, errorDetail := calls.strerror err }, []⟩
  | none =>
      let text := printInt adj.toInt
      let (written, errno) := calls.writeScore text
      if written ≠ text.length then
        ⟨{ err := errno, errorDetail := calls.strerror errno },
          if 0 < written then [.oomScoreAdj] else []⟩
      else
        ⟨{ success := true }, [.oomScoreAdj]⟩

end RuleCalls

/-- A block of `apply_rules`. -/
inductive Request
  | affinity (text : Bytes)
  | nice (value : Int8)
  | rlim (policy : RlimPolicy)
  | oomScoreAdj (adj : Int32)
  deriving DecidableEq, Repr

/-- The blocks that a message runs, in the order of the source. -/
def GovApplyMsg.requests (msg : GovApplyMsg) : List Request :=
  ((msg.cpu.bind CpuPolicy.affinity).map Request.affinity).toList ++
    ((msg.cpu.bind CpuPolicy.nice).map Request.nice).toList ++
    (msg.rlim.map Request.rlim).toList ++
    (msg.oomScoreAdj.map Request.oomScoreAdj).toList

namespace Request

def apply (calls : RuleCalls) (rl : Rlimit) :
    Request → Except ConversionError (Traced Setting ApplyResult)
  | affinity text => calls.applyAffinity text
  | nice value => pure (calls.applyNice value)
  | rlim policy => pure (calls.applyLimits policy rl)
  | oomScoreAdj adj => pure (calls.applyOomScoreAdj adj)

/-- The fields a block that succeeds adds to the result. -/
def record (applied : UInt8) : Request → UInt8
  | affinity _ => applied ||| Setting.cpuAffinity.field
  | nice _ => applied ||| Setting.cpuNice.field
  | rlim policy =>
      let applied :=
        if policy.nofileSoft.isSome ∨ policy.nofileHard.isSome then
          applied ||| Setting.rlimNofile.field
        else
          applied
      if policy.coreSoft.isSome ∨ policy.coreHard.isSome then
        applied ||| Setting.rlimCore.field
      else
        applied
  | oomScoreAdj _ => applied ||| Setting.oomScoreAdj.field

end Request

namespace RuleCalls

variable (calls : RuleCalls)

/-- The blocks one after the other. A helper that fails leaves its own result to
be returned, whose fields nothing has set. -/
def applyAll (rl : Rlimit) (applied : UInt8) :
    List Request → Except ConversionError (Traced Setting RulesResult)
  | [] => pure ⟨{ success := true, appliedFields := applied }, []⟩
  | request :: requests => do
      let r ← request.apply calls rl
      if r.value.success then
        let rest ← applyAll rl (request.record applied) requests
        pure ⟨rest.value, r.events ++ rest.events⟩
      else
        pure ⟨{ r.value with appliedFields := 0 }, r.events⟩

def applyRules (rl : Rlimit) (msg : GovApplyMsg) :
    Except ConversionError (Traced Setting RulesResult) :=
  if calls.alive then
    calls.applyAll rl 0 msg.requests
  else
    pure ⟨{ err := esrch, errorDetail := bytes "process not found" }, []⟩

end RuleCalls

/-! What a message asks for, and how the system calls answer to each setting. -/

/-- A setting with what is asked for it. -/
inductive Step
  | affinity (text : Bytes)
  | nice (value : Int8)
  | limit (policy : RlimPolicy) (resource : Resource)
  | oomScoreAdj (adj : Int32)
  deriving DecidableEq, Repr

def Step.setting : Step → Setting
  | affinity _ => .cpuAffinity
  | nice _ => .cpuNice
  | limit _ resource => resource.setting
  | oomScoreAdj _ => .oomScoreAdj

def limitSteps (policy : RlimPolicy) (resource : Resource) : List Step :=
  if (policy.soft resource).isSome ∨ (policy.hard resource).isSome then
    [.limit policy resource]
  else
    []

/-- The settings a block asks for, in the order of its system calls. -/
def Request.steps : Request → List Step
  | affinity text => [.affinity text]
  | nice value => [.nice value]
  | rlim policy => limitSteps policy .nofile ++ limitSteps policy .core
  | oomScoreAdj adj => [.oomScoreAdj adj]

def GovApplyMsg.steps (msg : GovApplyMsg) : List Step :=
  msg.requests.flatMap Request.steps

/-- The calls for one limit succeed. The limits of the governor are only read
where a half is missing. -/
def RuleCalls.LimitGranted (calls : RuleCalls) (policy : RlimPolicy)
    (resource : Resource) : Prop :=
  ((policy.soft resource).isNone ∨ (policy.hard resource).isNone →
    calls.getrlimit resource = none) ∧
    calls.prlimit resource = none

namespace Step

/-- The system calls for a setting succeed. -/
def Granted (calls : RuleCalls) : Step → Prop
  | affinity text =>
      ∃ mask, parseCpuList text = .ok (some mask) ∧
        calls.setaffinity mask = none
  | nice value => calls.setpriority value = none
  | limit policy resource => calls.LimitGranted policy resource
  | oomScoreAdj adj =>
      calls.openScore = none ∧
        (calls.writeScore (printInt adj.toInt)).1 = (printInt adj.toInt).length

/-- A setting is refused, and left as it was. -/
def Refused (calls : RuleCalls) : Step → Prop
  | affinity text =>
      parseCpuList text = .ok none ∨
        ∃ mask, parseCpuList text = .ok (some mask) ∧
          calls.setaffinity mask ≠ none
  | nice value => calls.setpriority value ≠ none
  | limit policy resource => ¬calls.LimitGranted policy resource
  | oomScoreAdj adj =>
      calls.openScore ≠ none ∨
        (calls.writeScore (printInt adj.toInt)).1 ≤ 0

end Step

/-- The fields of some settings. -/
def fieldsOf (settings : List Setting) : UInt8 :=
  settings.foldl (fun fields setting => fields ||| setting.field) 0

/-- The call returns, and its `applied_fields` are the settings it changed. -/
def RuleCalls.Truthful (calls : RuleCalls) (rl : Rlimit) (msg : GovApplyMsg) :
    Prop :=
  ∃ r, calls.applyRules rl msg = .ok r ∧
    r.value.appliedFields = fieldsOf r.events

/-! Masks of fields. -/

theorem field_ne_zero (setting : Setting) : setting.field ≠ 0 := by
  cases setting <;> decide

theorem fieldsOf_concat (front : List Setting) (setting : Setting) :
    fieldsOf (front ++ [setting]) = fieldsOf front ||| setting.field := by
  simp [fieldsOf]

theorem fieldsOf_eq_zero_iff {settings : List Setting} :
    fieldsOf settings = 0 ↔ settings = [] := by
  rcases List.eq_nil_or_concat settings with rfl | ⟨front, setting, rfl⟩
  · simp [fieldsOf]
  · simp [fieldsOf_concat, field_ne_zero]

theorem fieldsOf_append_limit (before : List Setting) (policy : RlimPolicy)
    (resource : Resource) :
    fieldsOf (before ++ (limitSteps policy resource).map Step.setting) =
      if (policy.soft resource).isSome ∨ (policy.hard resource).isSome then
        fieldsOf before ||| resource.setting.field
      else
        fieldsOf before := by
  unfold limitSteps
  split
  · exact fieldsOf_concat before _
  · rw [List.map_nil, List.append_nil]

theorem record_fieldsOf (request : Request) (before : List Setting) :
    request.record (fieldsOf before) =
      fieldsOf (before ++ request.steps.map Step.setting) := by
  cases request with
  | affinity text => exact (fieldsOf_concat before _).symm
  | nice value => exact (fieldsOf_concat before _).symm
  | oomScoreAdj adj => exact (fieldsOf_concat before _).symm
  | rlim policy =>
      rw [Request.steps, List.map_append, ← List.append_assoc,
        fieldsOf_append_limit, fieldsOf_append_limit]
      rfl

/-! What one block does. -/

theorem Step.Granted.not_refused {calls : RuleCalls} {step : Step}
    (h : step.Granted calls) : ¬step.Refused calls := by
  intro hrefused
  cases step with
  | affinity text =>
      obtain ⟨mask, hparse, hset⟩ := h
      rcases hrefused with hnone | ⟨other, hother, hfailed⟩
      · rw [hparse] at hnone
        cases hnone
      · rw [hparse] at hother
        cases hother
        exact hfailed hset
  | nice value => exact hrefused h
  | limit policy resource => exact hrefused h
  | oomScoreAdj adj =>
      obtain ⟨hopen, hwrite⟩ := h
      have hpos := List.length_pos_iff.mpr
        (Data.Numeric.printInt_ne_nil adj.toInt)
      rcases hrefused with hfailed | hfailed
      · exact hfailed hopen
      · omega

theorem limitSetting_eq (policy : RlimPolicy) (resource : Resource) :
    RuleCalls.limitSetting policy resource =
      (limitSteps policy resource).map Step.setting := by
  unfold RuleCalls.limitSetting limitSteps
  split <;> rfl

section Limits

variable (calls : RuleCalls) (policy : RlimPolicy) (resource : Resource)
  (rl : Rlimit)

theorem exists_fill_iff :
    (∃ filled, calls.fill policy resource rl = .ok filled) ↔
      ((policy.soft resource).isNone ∨ (policy.hard resource).isNone →
        calls.getrlimit resource = none) := by
  unfold RlimitCalls.fill RlimitCalls.readOwn
  cases policy.soft resource <;> cases policy.hard resource <;>
    cases calls.getrlimit resource <;> simp [Bind.bind, Except.bind]

/-- The ways a block of `apply_rlimit` can end. -/
theorem setLimit_cases (target : Limits) :
    (limitSteps policy resource = [] ∧
      calls.setLimit policy resource rl target = (.ok rl, target)) ∨
    (limitSteps policy resource = [.limit policy resource] ∧
      calls.LimitGranted policy resource ∧
      ∃ filled after,
        calls.setLimit policy resource rl target = (.ok filled, after)) ∨
    (limitSteps policy resource = [.limit policy resource] ∧
      ¬calls.LimitGranted policy resource ∧
      ∃ result, calls.setLimit policy resource rl target =
        (.error result, target) ∧ result.success = false) := by
  have hfills := exists_fill_iff calls policy resource rl
  unfold RlimitCalls.setLimit limitSteps RuleCalls.LimitGranted
  split
  · refine .inr ?_
    cases hfill : calls.fill policy resource rl with
    | error result =>
        refine .inr ⟨rfl, ?_, result, rfl, RlimitCalls.fill_error hfill⟩
        intro hgranted
        obtain ⟨filled, hother⟩ := hfills.mpr hgranted.1
        rw [hfill] at hother
        contradiction
    | ok filled =>
        cases hset : calls.prlimit resource with
        | some err =>
            refine .inr ⟨rfl, ?_, _, rfl, rfl⟩
            intro hgranted
            cases hgranted.2
        | none => exact .inl ⟨rfl, ⟨hfills.mp ⟨filled, hfill⟩, rfl⟩, _, _, rfl⟩
  · exact .inl ⟨rfl, rfl⟩

end Limits

/-- The ways a block can end: it goes through, it stops at a setting behind some
that it has changed, or it throws. -/
inductive Outcome (calls : RuleCalls) (steps : List Step) :
    Except ConversionError (Traced Setting ApplyResult) → Prop
  | done {r : Traced Setting ApplyResult} :
      r.value.success = true → r.events = steps.map Step.setting →
      (∀ step ∈ steps, step.Granted calls) → Outcome calls steps (.ok r)
  | stopped {r : Traced Setting ApplyResult} {front back : List Step}
      {step : Step} {partly : List Setting} :
      r.value.success = false →
      r.events = front.map Step.setting ++ partly →
      steps = front ++ step :: back → (∀ step ∈ front, step.Granted calls) →
      ¬step.Granted calls → (partly = [] ↔ step.Refused calls) →
      Outcome calls steps (.ok r)
  | thrown {error : ConversionError} {step : Step} :
      steps = [step] → ¬step.Granted calls → ¬step.Refused calls →
      Outcome calls steps (.error error)

/-- A block with one setting that is not granted changes nothing before it. -/
theorem Outcome.first {calls : RuleCalls} {step : Step}
    {r : Traced Setting ApplyResult} (hfailed : r.value.success = false)
    (hstep : ¬step.Granted calls) (hchanged : r.events = [] ↔ step.Refused calls) :
    Outcome calls [step] (.ok r) :=
  @Outcome.stopped calls [step] r [] [] step r.events hfailed rfl rfl
    (List.forall_mem_nil _) hstep hchanged

theorem applyAffinity_outcome (calls : RuleCalls) (text : Bytes) :
    Outcome calls [.affinity text] (calls.applyAffinity text) := by
  unfold RuleCalls.applyAffinity
  cases hparse : parseCpuList text with
  | error error =>
      refine .thrown rfl ?_ ?_
      · intro hgranted
        obtain ⟨mask, hmask, _⟩ := hgranted
        rw [hparse] at hmask
        cases hmask
      · intro hrefused
        rcases hrefused with hnone | ⟨mask, hmask, _⟩
        · rw [hparse] at hnone
          cases hnone
        · rw [hparse] at hmask
          cases hmask
  | ok answer =>
      cases answer with
      | none =>
          have hrefused : (Step.affinity text).Refused calls := .inl hparse
          exact .first rfl (fun hgranted => hgranted.not_refused hrefused)
            (iff_of_true rfl hrefused)
      | some mask =>
          rw [Data.ok_bind]
          cases hset : calls.setaffinity mask with
          | some err =>
              have hrefused : (Step.affinity text).Refused calls :=
                .inr ⟨mask, hparse, by rw [hset]; exact Option.some_ne_none err⟩
              simp only [hset]
              exact .first rfl (fun hgranted => hgranted.not_refused hrefused)
                (iff_of_true rfl hrefused)
          | none =>
              simp only [hset]
              exact .done rfl rfl
                (List.forall_mem_singleton.mpr ⟨mask, hparse, hset⟩)

theorem applyNice_outcome (calls : RuleCalls) (value : Int8) :
    Outcome calls [.nice value] (.ok (calls.applyNice value)) := by
  unfold RuleCalls.applyNice
  cases hset : calls.setpriority value with
  | some err =>
      have hrefused : (Step.nice value).Refused calls := by
        rw [Step.Refused, hset]
        exact Option.some_ne_none err
      exact .first rfl (fun hgranted => hgranted.not_refused hrefused)
        (iff_of_true rfl hrefused)
  | none => exact .done rfl rfl (List.forall_mem_singleton.mpr hset)

theorem applyOomScoreAdj_outcome (calls : RuleCalls) (adj : Int32) :
    Outcome calls [.oomScoreAdj adj] (.ok (calls.applyOomScoreAdj adj)) := by
  unfold RuleCalls.applyOomScoreAdj
  cases hopen : calls.openScore with
  | some err =>
      have hrefused : (Step.oomScoreAdj adj).Refused calls := by
        refine .inl ?_
        rw [hopen]
        exact Option.some_ne_none err
      exact .first rfl (fun hgranted => hgranted.not_refused hrefused)
        (iff_of_true rfl hrefused)
  | none =>
      simp only
      split
      · rename_i hshort
        apply Outcome.first
        · rfl
        · exact fun hgranted => hshort hgranted.2
        · simp [Step.Refused, hopen]
      · rename_i hwhole
        exact .done rfl rfl
          (List.forall_mem_singleton.mpr ⟨hopen, not_not.mp hwhole⟩)

/-- The block for `RLIMIT_CORE`, behind settings that have gone through. -/
theorem core_outcome (calls : RuleCalls) (policy : RlimPolicy) (rl : Rlimit)
    (target : Limits) {front : List Step}
    (hfront : ∀ step ∈ front, step.Granted calls) :
    Outcome calls (front ++ limitSteps policy .core)
      (.ok
        { value :=
            (match calls.setLimit policy .core rl target with
            | (.error result, target) => (result, target)
            | (.ok _, target) => ({ success := true }, target)).1
          events := front.map Step.setting ++
            match calls.setLimit policy .core rl target with
            | (.error _, _) => []
            | (.ok _, _) => (limitSteps policy .core).map Step.setting }) := by
  rcases setLimit_cases calls policy .core rl target with
    ⟨hcore, hset⟩ | ⟨hcore, hgranted, filled, after, hset⟩ |
      ⟨hcore, hdenied, result, hset, hfailed⟩
  · simp only [hcore, hset]
    refine .done rfl (by simp) ?_
    rwa [List.append_nil]
  · simp only [hcore, hset]
    exact .done rfl (by simp) (List.forall_mem_append.mpr
      ⟨hfront, List.forall_mem_singleton.mpr hgranted⟩)
  · simp only [hcore, hset]
    exact .stopped hfailed rfl rfl hfront hdenied (iff_of_true rfl hdenied)

theorem applyLimits_outcome (calls : RuleCalls) (policy : RlimPolicy)
    (rl : Rlimit) :
    Outcome calls (limitSteps policy .nofile ++ limitSteps policy .core)
      (.ok (calls.applyLimits policy rl)) := by
  unfold RuleCalls.applyLimits RlimitCalls.applyRlimit
  simp only [limitSetting_eq]
  rcases setLimit_cases calls policy .nofile rl calls.limits with
    ⟨hnofile, hset⟩ | ⟨hnofile, hgranted, filled, after, hset⟩ |
      ⟨hnofile, hdenied, result, hset, hfailed⟩
  · simp only [hnofile, hset]
    exact core_outcome calls policy rl calls.limits (List.forall_mem_nil _)
  · simp only [hnofile, hset]
    exact core_outcome calls policy filled after
      (List.forall_mem_singleton.mpr hgranted)
  · simp only [hnofile, hset]
    exact @Outcome.stopped calls _ _ [] (limitSteps policy .core) _ [] hfailed
      rfl rfl (List.forall_mem_nil _) hdenied (iff_of_true rfl hdenied)

theorem apply_outcome (calls : RuleCalls) (rl : Rlimit) (request : Request) :
    Outcome calls request.steps (request.apply calls rl) := by
  cases request with
  | affinity text => exact applyAffinity_outcome calls text
  | nice value => exact applyNice_outcome calls value
  | rlim policy => exact applyLimits_outcome calls policy rl
  | oomScoreAdj adj => exact applyOomScoreAdj_outcome calls adj

/-! All blocks of a message. -/

/-- The first setting of some steps is refused. -/
def FirstRefused (calls : RuleCalls) (steps : List Step) : Prop :=
  ∃ step, steps.head? = some step ∧ step.Refused calls

theorem firstRefused_append {calls : RuleCalls} {front back : List Step}
    (h : ∀ step ∈ front, step.Granted calls) :
    FirstRefused calls (front ++ back) ↔
      front = [] ∧ FirstRefused calls back := by
  cases front with
  | nil => simp
  | cons first front =>
      have hgranted := h first List.mem_cons_self
      simp [FirstRefused, hgranted.not_refused]

theorem firstRefused_cons {calls : RuleCalls} {step : Step}
    {back : List Step} :
    FirstRefused calls (step :: back) ↔ step.Refused calls := by
  simp [FirstRefused]

/-- The rest of a message is applied, and the fields of the result are those of
everything that has been changed, `before` included. -/
def TruthfulFrom (calls : RuleCalls) (rl : Rlimit) (before : List Setting)
    (requests : List Request) : Prop :=
  ∃ r, calls.applyAll rl (fieldsOf before) requests = .ok r ∧
    r.value.appliedFields = fieldsOf (before ++ r.events)

/-- Everything is granted, or nothing has been changed and the next setting is
refused. -/
def WholeOrNone (calls : RuleCalls) (before : List Setting)
    (steps : List Step) : Prop :=
  (∀ step ∈ steps, step.Granted calls) ∨
    (before = [] ∧ FirstRefused calls steps)

section Block

variable {calls : RuleCalls} {rl : Rlimit} {before : List Setting}
  {request : Request} {requests : List Request}

theorem not_truthfulFrom_of_thrown {error : ConversionError}
    (h : request.apply calls rl = .error error) :
    ¬TruthfulFrom calls rl before (request :: requests) := by
  intro htruthful
  obtain ⟨r, hreturned, _⟩ := htruthful
  rw [RuleCalls.applyAll, h] at hreturned
  cases hreturned

theorem truthfulFrom_of_failed {r : Traced Setting ApplyResult}
    (h : request.apply calls rl = .ok r) (hfailed : r.value.success = false) :
    TruthfulFrom calls rl before (request :: requests) ↔
      before ++ r.events = [] := by
  have hreturns : calls.applyAll rl (fieldsOf before) (request :: requests) =
      .ok ⟨{ r.value with appliedFields := 0 }, r.events⟩ := by
    rw [RuleCalls.applyAll, h, Data.ok_bind, hfailed]
    rfl
  rw [← fieldsOf_eq_zero_iff, TruthfulFrom, hreturns]
  constructor
  · intro htruthful
    obtain ⟨_, hreturned, hfields⟩ := htruthful
    obtain rfl := Except.ok.inj hreturned
    exact hfields.symm
  · intro hzero
    exact ⟨_, rfl, hzero.symm⟩

theorem truthfulFrom_of_success {r : Traced Setting ApplyResult}
    (h : request.apply calls rl = .ok r) (hsuccess : r.value.success = true)
    (hrecord : request.record (fieldsOf before) =
      fieldsOf (before ++ r.events)) :
    TruthfulFrom calls rl before (request :: requests) ↔
      TruthfulFrom calls rl (before ++ r.events) requests := by
  unfold TruthfulFrom
  rw [RuleCalls.applyAll, h, Data.ok_bind, if_pos hsuccess, hrecord]
  simp only [Data.bind_eq_ok, Data.pure_eq_ok, Except.ok.injEq]
  constructor
  · intro htruthful
    obtain ⟨_, ⟨rest, happlied, rfl⟩, hfields⟩ := htruthful
    refine ⟨rest, happlied, ?_⟩
    rwa [List.append_assoc]
  · intro htruthful
    obtain ⟨rest, happlied, hfields⟩ := htruthful
    refine ⟨_, ⟨rest, happlied, rfl⟩, ?_⟩
    rwa [List.append_assoc] at hfields

theorem not_wholeOrNone_cons {step : Step} {back : List Step}
    (hnot : ¬step.Granted calls) (hspoiled : ¬step.Refused calls) :
    ¬WholeOrNone calls before (step :: back) := by
  intro h
  rcases h with hall | ⟨_, hfirst⟩
  · exact hnot (hall step List.mem_cons_self)
  · exact hspoiled (firstRefused_cons.mp hfirst)

theorem wholeOrNone_append {front back : List Step}
    (hgranted : ∀ step ∈ front, step.Granted calls) :
    WholeOrNone calls before (front ++ back) ↔
      WholeOrNone calls (before ++ front.map Step.setting) back := by
  simp only [WholeOrNone, List.forall_mem_append,
    firstRefused_append hgranted, List.append_eq_nil_iff,
    List.map_eq_nil_iff, and_assoc]
  exact or_congr_left (and_iff_right hgranted)

/-- Behind a setting that is not granted it matters what has been changed. -/
theorem wholeOrNone_stopped {front back : List Step} {step : Step}
    {partly : List Setting} (hgranted : ∀ step ∈ front, step.Granted calls)
    (hnot : ¬step.Granted calls) (hpartly : partly = [] ↔ step.Refused calls) :
    WholeOrNone calls before (front ++ step :: back) ↔
      before ++ (front.map Step.setting ++ partly) = [] := by
  have hstep : ¬∀ other ∈ step :: back, other.Granted calls := fun hall =>
    hnot (hall step List.mem_cons_self)
  rw [wholeOrNone_append hgranted, WholeOrNone, or_iff_right hstep,
    firstRefused_cons, ← hpartly, ← List.append_eq_nil_iff,
    List.append_assoc]

end Block

/-- With some settings changed already, the fields of the result are those of
all changed settings exactly if everything is granted, or nothing has been
changed and the next setting is refused. -/
theorem truthfulFrom_iff (calls : RuleCalls) (rl : Rlimit)
    (requests : List Request) (before : List Setting) :
    TruthfulFrom calls rl before requests ↔
      WholeOrNone calls before (requests.flatMap Request.steps) := by
  induction requests generalizing before with
  | nil =>
      refine iff_of_true ⟨_, rfl, ?_⟩ (.inl (List.forall_mem_nil _))
      rw [List.append_nil]
  | cons request requests ih =>
      rw [List.flatMap_cons]
      have hrecord := record_fieldsOf request before
      have houtcome := apply_outcome calls rl request
      generalize hsteps : request.steps = steps at houtcome hrecord
      generalize happly : request.apply calls rl = outcome at houtcome
      cases houtcome with
      | thrown hsingle hnot hspoiled =>
          rw [hsingle, List.singleton_append]
          exact iff_of_false (not_truthfulFrom_of_thrown happly)
            (not_wholeOrNone_cons hnot hspoiled)
      | done hsuccess hevents hgranted =>
          rw [← hevents] at hrecord
          rw [truthfulFrom_of_success happly hsuccess hrecord, ih,
            wholeOrNone_append hgranted, hevents]
      | stopped hfailed hevents hsplit hgranted hnot hpartly =>
          rw [truthfulFrom_of_failed happly hfailed, hsplit, hevents,
            List.append_assoc, List.cons_append,
            wholeOrNone_stopped hgranted hnot hpartly]

/-- The result tells the truth exactly if the process is gone, all that the
message asks for is granted, or the first setting it asks for is refused. -/
theorem appliedFields_truthful_iff (calls : RuleCalls) (rl : Rlimit)
    (msg : GovApplyMsg) :
    calls.Truthful rl msg ↔
      calls.alive = false ∨ (∀ step ∈ msg.steps, step.Granted calls) ∨
        FirstRefused calls msg.steps := by
  unfold RuleCalls.Truthful RuleCalls.applyRules
  cases halive : calls.alive with
  | false => exact iff_of_true ⟨_, rfl, rfl⟩ (.inl rfl)
  | true =>
      have hall := truthfulFrom_iff calls rl msg.requests []
      simp only [TruthfulFrom, WholeOrNone, List.nil_append, true_and] at hall
      rw [if_pos rfl]
      simp only [Bool.true_eq_false, false_or]
      exact hall

/-- The nice value of the target is changed and its score cannot be opened. -/
theorem failed_score_hides_nice :
    ¬RuleCalls.Truthful
      { own := fun _ => ⟨1024, 4096⟩
        limits := fun _ => ⟨1024, 4096⟩
        strerror := fun _ => []
        openScore := some 13 } ⟨0, 0⟩
      { pid := 7, cpu := some { nice := some 5 }, oomScoreAdj := some 500 } := by
  intro htruthful
  obtain ⟨r, hreturned, hfields⟩ := htruthful
  obtain rfl := Except.ok.inj hreturned
  exact absurd hfields (by decide)

end HeidiKernel.Gov
