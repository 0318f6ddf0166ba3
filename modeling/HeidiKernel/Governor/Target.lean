import HeidiKernel.Governor.ApplyRules

namespace HeidiKernel.Gov

open HeidiKernel.Transition
open HeidiKernel.Data.Numeric (printInt)
open HeidiKernel.CpuList (CpuSet)

/-! What the system calls of `apply_rules` do to a process. -/

/-- The settings of a process that `apply_rules` can change. It runs on the
processors of its affinity, which are among those permitted to it. The score is
the text the kernel has taken for it. -/
structure Target where
  permitted : CpuSet
  affinity : CpuSet
  nice : Int8
  limits : Limits
  oomScoreAdj : Bytes

def Target.Agree (t t' : Target) : Setting → Prop
  | .cpuAffinity => t.affinity = t'.affinity ∧ t.permitted = t'.permitted
  | .cpuNice => t.nice = t'.nice
  | .rlimNofile => t.limits .nofile = t'.limits .nofile
  | .rlimCore => t.limits .core = t'.limits .core
  | .oomScoreAdj => t.oomScoreAdj = t'.oomScoreAdj

theorem Target.Agree.refl (t : Target) (setting : Setting) :
    t.Agree t setting := by
  cases setting with
  | cpuAffinity => exact ⟨rfl, rfl⟩
  | cpuNice | rlimNofile | rlimCore | oomScoreAdj => exact rfl

theorem Target.Agree.trans {t t' t'' : Target} {setting : Setting}
    (h : t.Agree t' setting) (h' : t'.Agree t'' setting) :
    t.Agree t'' setting := by
  cases setting with
  | cpuAffinity => exact ⟨h.1.trans h'.1, h.2.trans h'.2⟩
  | cpuNice | rlimNofile | rlimCore | oomScoreAdj => exact Eq.trans h h'

/-- `setpriority` takes a value outside of its range for the nearest inside. -/
def clampNice (value : Int8) : Int8 :=
  if value < -20 then -20 else if 19 < value then 19 else value

/-- The process has what a message asks for, as far as it can: the processors
that are permitted to it, and the nearest nice value there is. A soft limit
without its hard limit is not among it: the governor's own pair is written
then. -/
def Step.InForce (t : Target) : Step → Prop
  | affinity text => ∃ mask, parseCpuList text = .ok (some mask) ∧
      t.affinity = mask &&& t.permitted
  | nice value => t.nice = clampNice value
  | limit policy resource =>
      ∀ hard, policy.hard resource = some hard →
        (t.limits resource).max = hard ∧
          ∀ soft, policy.soft resource = some soft →
            (t.limits resource).cur = soft
  | oomScoreAdj adj => t.oomScoreAdj = printInt adj.toInt

theorem Step.InForce.congr {t t' : Target} {step : Step}
    (h : step.InForce t) (hagree : t'.Agree t step.setting) :
    step.InForce t' := by
  cases step with
  | affinity text =>
      obtain ⟨mask, hparse, hmask⟩ := h
      exact ⟨mask, hparse, by rw [hagree.1, hagree.2, hmask]⟩
  | nice value => exact Eq.trans hagree h
  | limit policy resource =>
      have hsame : t'.limits resource = t.limits resource := by
        cases resource <;> exact hagree
      rw [Step.InForce, hsame]
      exact h
  | oomScoreAdj adj => exact Eq.trans hagree h

/-- What the system calls of a block do to the process. -/
def Request.write (calls : RuleCalls) (rl : Rlimit) (t : Target) :
    Request → Target
  | affinity text =>
      match parseCpuList text with
      | .ok (some mask) =>
          match calls.setaffinity mask with
          | none => { t with affinity := mask &&& t.permitted }
          | some _ => t
      | .ok none | .error _ => t
  | nice value =>
      match calls.setpriority value with
      | none => { t with nice := clampNice value }
      | some _ => t
  | rlim policy => { t with limits := (calls.applyRlimit policy rl t.limits).2 }
  | oomScoreAdj adj =>
      match calls.openScore with
      | none =>
          let text := printInt adj.toInt
          let written := (calls.writeScore text).1
          if 0 < written then
            { t with oomScoreAdj := text.take written.toNat }
          else
            t
      | some _ => t

namespace RuleCalls

variable (calls : RuleCalls)

def writeAll (rl : Rlimit) (t : Target) : List Request → Target
  | [] => t
  | request :: requests =>
      match request.apply calls rl with
      | .ok r =>
          if r.value.success then
            writeAll rl (request.write calls rl t) requests
          else
            request.write calls rl t
      | .error _ => t

/-- What the system calls of `apply_rules` do to the process. -/
def writeRules (rl : Rlimit) (t : Target) (msg : GovApplyMsg) : Target :=
  if calls.alive then calls.writeAll rl t msg.requests else t

end RuleCalls

/-! A block keeps what it does not log, and puts in force what it was to apply
if it succeeds. -/

/-- The target before and after some system calls, which log the settings they
have changed. -/
structure Wrote (steps : List Step) (changed : List Setting) (success : Bool)
    (t t' : Target) : Prop where
  asked : ∀ setting ∈ changed, setting ∈ steps.map Step.setting
  kept : ∀ setting, setting ∉ changed → t'.Agree t setting
  done : success = true → ∀ step ∈ steps, step.InForce t'

theorem Wrote.unchanged {steps : List Step} (t : Target) :
    Wrote steps [] false t t where
  asked := List.forall_mem_nil _
  kept setting _ := .refl t setting
  done hsuccess := absurd hsuccess Bool.false_ne_true

theorem Wrote.single {step : Step} {success : Bool} {t t' : Target}
    (hothers : ∀ setting, setting ≠ step.setting → t'.Agree t setting)
    (hdone : success = true → step.InForce t') :
    Wrote [step] [step.setting] success t t' where
  asked _ hmem := hmem
  kept setting hkept :=
    hothers setting fun heq => hkept (List.mem_singleton.mpr heq)
  done hsuccess := List.forall_mem_singleton.mpr (hdone hsuccess)

section Blocks

variable {calls : RuleCalls} {rl : Rlimit} (t : Target)

theorem wrote_affinity {text : Bytes} {r : Traced Setting ApplyResult}
    (h : calls.applyAffinity text = .ok r) :
    Wrote [.affinity text] r.events r.value.success t
      ((Request.affinity text).write calls rl t) := by
  rw [RuleCalls.applyAffinity] at h
  rw [Request.write]
  cases hparse : parseCpuList text with
  | error error =>
      rw [hparse] at h
      cases h
  | ok answer =>
      rw [hparse, Data.ok_bind] at h
      cases answer with
      | none =>
          obtain rfl := Except.ok.inj h
          exact .unchanged t
      | some mask =>
          cases hset : calls.setaffinity mask with
          | some err =>
              simp only [hset] at h ⊢
              obtain rfl := Except.ok.inj h
              exact .unchanged t
          | none =>
              simp only [hset] at h ⊢
              obtain rfl := Except.ok.inj h
              refine .single (fun setting hne => ?_) fun _ =>
                ⟨mask, hparse, rfl⟩
              cases setting with
              | cpuAffinity => exact absurd rfl hne
              | cpuNice | rlimNofile | rlimCore | oomScoreAdj => exact rfl

theorem wrote_nice (value : Int8) :
    Wrote [.nice value] (calls.applyNice value).events
      (calls.applyNice value).value.success t
      ((Request.nice value).write calls rl t) := by
  rw [RuleCalls.applyNice, Request.write]
  cases hset : calls.setpriority value with
  | some err => exact .unchanged t
  | none =>
      refine .single (fun setting hne => ?_) fun _ => rfl
      cases setting with
      | cpuNice => exact absurd rfl hne
      | cpuAffinity => exact ⟨rfl, rfl⟩
      | rlimNofile | rlimCore | oomScoreAdj => exact rfl

theorem wrote_score {adj : Int32} {success : Bool} (score : Bytes)
    (hdone : success = true → score = printInt adj.toInt) :
    Wrote [.oomScoreAdj adj] [.oomScoreAdj] success t
      { t with oomScoreAdj := score } := by
  refine .single (fun setting hne => ?_) hdone
  cases setting with
  | oomScoreAdj => exact absurd rfl hne
  | cpuAffinity => exact ⟨rfl, rfl⟩
  | cpuNice | rlimNofile | rlimCore => exact rfl

theorem wrote_oomScoreAdj (adj : Int32) :
    Wrote [.oomScoreAdj adj] (calls.applyOomScoreAdj adj).events
      (calls.applyOomScoreAdj adj).value.success t
      ((Request.oomScoreAdj adj).write calls rl t) := by
  rw [RuleCalls.applyOomScoreAdj, Request.write]
  cases hopen : calls.openScore with
  | some err => exact .unchanged t
  | none =>
      cases hanswer : calls.writeScore (printInt adj.toInt) with
      | mk written errno =>
      simp only [hanswer]
      rcases eq_or_ne written (printInt adj.toInt).length with rfl | hshort
      · have hpos := List.length_pos_iff.mpr
          (Data.Numeric.printInt_ne_nil adj.toInt)
        rw [if_neg (not_not.mpr rfl), if_pos (Int.natCast_pos.mpr hpos)]
        exact wrote_score t _ fun _ => List.take_length
      · rw [if_pos hshort]
        rcases em (0 < written) with hsome | hnothing
        · rw [if_pos hsome, if_pos hsome]
          exact wrote_score t _ fun hsuccess =>
            absurd hsuccess Bool.false_ne_true
        · rw [if_neg hnothing, if_neg hnothing]
          exact .unchanged t

/-! The answers of `apply_rlimit` do not depend on the limits it replaces. -/

theorem setLimit_answer (calls : RuleCalls) (rl : Rlimit)
    (policy : RlimPolicy) (resource : Resource) (before before' : Limits) :
    (calls.setLimit policy resource rl before).1 =
      (calls.setLimit policy resource rl before').1 := by
  rw [RlimitCalls.setLimit, RlimitCalls.setLimit]
  split
  · cases calls.fill policy resource rl with
    | error result => rfl
    | ok filled => cases calls.prlimit resource <;> rfl
  · rfl

theorem setLimit_kept {policy : RlimPolicy} {resource : Resource}
    {before after : Limits} {outcome : Except ApplyResult Rlimit}
    (h : calls.setLimit policy resource rl before = (outcome, after))
    (hkept : (∃ result, outcome = .error result) ∨
      RuleCalls.limitSetting policy resource = []) : after = before := by
  rw [limitSetting_eq, List.map_eq_nil_iff] at hkept
  rcases setLimit_cases calls policy resource rl before with
    ⟨_, hset⟩ | ⟨hlimit, _, filled, _, hset⟩ | ⟨_, _, result, hset, _⟩
  · rw [hset] at h
    exact (congrArg Prod.snd h).symm
  · rw [hset] at h
    rcases hkept with ⟨result, rfl⟩ | hnothing
    · cases congrArg Prod.fst h
    · rw [hlimit] at hnothing
      cases hnothing
  · rw [hset] at h
    exact (congrArg Prod.snd h).symm

theorem setLimit_other {policy : RlimPolicy} {resource other : Resource}
    {before after : Limits} {outcome : Except ApplyResult Rlimit}
    (h : calls.setLimit policy resource rl before = (outcome, after))
    (hne : other ≠ resource) : after other = before other := by
  cases outcome with
  | error result => rw [setLimit_kept h (.inl ⟨result, rfl⟩)]
  | ok filled =>
      rw [RlimitCalls.setLimit_ok h, Function.update_of_ne hne]

theorem inForce_limit_of_installed {policy : RlimPolicy} {own before : Rlimit}
    {resource : Resource}
    (h : t.limits resource = installed own (policy.soft resource)
      (policy.hard resource) before) :
    (Step.limit policy resource).InForce t := by
  intro hard hhard
  rw [h, hhard]
  cases hsoft : policy.soft resource with
  | none => simp [installed]
  | some soft => simp [installed]

theorem applyLimits_at (policy : RlimPolicy) (before : Limits) :
    calls.applyLimits policy rl =
      { calls with limits := before }.applyLimits policy rl := by
  rw [RuleCalls.applyLimits, RuleCalls.applyLimits, RlimitCalls.applyRlimit,
    RlimitCalls.applyRlimit]
  have hfirst := setLimit_answer calls rl policy .nofile calls.limits before
  cases hhere : calls.setLimit policy .nofile rl calls.limits with
  | mk outcome between =>
  cases hthere : calls.setLimit policy .nofile rl before with
  | mk outcome' between' =>
  rw [hhere, hthere] at hfirst
  dsimp only at hfirst ⊢
  subst hfirst
  cases outcome with
  | error result => rfl
  | ok filled =>
      have hsecond := setLimit_answer calls filled policy .core between between'
      cases hhere : calls.setLimit policy .core filled between with
      | mk outcome after =>
      cases hthere : calls.setLimit policy .core filled between' with
      | mk outcome' after' =>
      rw [hhere, hthere] at hsecond
      dsimp only at hsecond ⊢
      subst hsecond
      rw [hhere, hthere]
      cases outcome <;> rfl

theorem limitSetting_eq_nil {policy : RlimPolicy} {resource : Resource}
    (h : resource.setting ∉ RuleCalls.limitSetting policy resource) :
    RuleCalls.limitSetting policy resource = [] := by
  rw [RuleCalls.limitSetting] at h ⊢
  split_ifs at h ⊢
  · exact absurd (List.mem_singleton_self _) h
  · rfl

theorem mem_limitSteps {policy : RlimPolicy} {resource : Resource}
    {step : Step} (h : step ∈ limitSteps policy resource) :
    step = .limit policy resource := by
  rw [limitSteps] at h
  split_ifs at h
  · exact List.mem_singleton.mp h
  · cases h

theorem agree_limits {limits : Limits} {setting : Setting}
    (hkept : ∀ resource : Resource, setting = resource.setting →
      limits resource = t.limits resource) :
    Target.Agree { t with limits := limits } t setting := by
  cases setting with
  | rlimNofile => exact hkept .nofile rfl
  | rlimCore => exact hkept .core rfl
  | cpuAffinity => exact ⟨rfl, rfl⟩
  | cpuNice | oomScoreAdj => exact rfl

theorem applyLimits_asked (policy : RlimPolicy) :
    ∀ setting ∈ (calls.applyLimits policy rl).events,
      setting ∈ (limitSteps policy .nofile ++ limitSteps policy .core).map
        Step.setting := by
  intro setting hmem
  rw [List.map_append, ← limitSetting_eq, ← limitSetting_eq]
  rw [RuleCalls.applyLimits] at hmem
  dsimp only at hmem
  cases hnofile : calls.setLimit policy .nofile rl calls.limits with
  | mk outcome between =>
  rw [hnofile] at hmem
  cases outcome with
  | error result => cases hmem
  | ok filled =>
      dsimp only at hmem
      refine List.mem_append.mpr ((List.mem_append.mp hmem).imp_right ?_)
      split
      · exact fun h => absurd h List.not_mem_nil
      · exact id

theorem applyLimits_kept (policy : RlimPolicy) {setting : Setting}
    (hkept : setting ∉
      ({ calls with limits := t.limits }.applyLimits policy rl).events) :
    ((Request.rlim policy).write calls rl t).Agree t setting := by
  rw [RuleCalls.applyLimits] at hkept
  rw [Request.write, RlimitCalls.applyRlimit]
  dsimp only at hkept
  cases hnofile : calls.setLimit policy .nofile rl t.limits with
  | mk outcome between =>
  rw [hnofile] at hkept
  cases outcome with
  | error result =>
      rw [setLimit_kept hnofile (.inl ⟨result, rfl⟩)]
      exact .refl t setting
  | ok filled =>
      cases hcore : calls.setLimit policy .core filled between with
      | mk outcome after =>
      dsimp only at hkept ⊢
      rw [hcore] at hkept ⊢
      have hnofileKept : setting = .rlimNofile →
          after .nofile = t.limits .nofile := by
        rintro rfl
        have hnone : RuleCalls.limitSetting policy .nofile = [] :=
          limitSetting_eq_nil (mt (List.mem_append_left _) hkept)
        rw [setLimit_other hcore (by decide),
          setLimit_kept hnofile (.inr hnone)]
      have hcoreKept : setting = .rlimCore →
          after .core = t.limits .core := by
        rintro rfl
        rw [← setLimit_other hnofile (by decide)]
        cases outcome with
        | error result => rw [setLimit_kept hcore (.inl ⟨result, rfl⟩)]
        | ok _ =>
            have hnone : RuleCalls.limitSetting policy .core = [] :=
              limitSetting_eq_nil (mt (List.mem_append_right _) hkept)
            rw [setLimit_kept hcore (.inr hnone)]
      have hlimits : Target.Agree { t with limits := after } t setting := by
        refine agree_limits t fun resource hsame => ?_
        cases resource with
        | nofile => exact hnofileKept hsame
        | core => exact hcoreKept hsame
      cases outcome <;> exact hlimits

theorem wrote_limits (policy : RlimPolicy) :
    Wrote (limitSteps policy .nofile ++ limitSteps policy .core)
      (calls.applyLimits policy rl).events
      (calls.applyLimits policy rl).value.success t
      ((Request.rlim policy).write calls rl t) := by
  rw [applyLimits_at policy t.limits]
  refine ⟨applyLimits_asked policy, fun _ => applyLimits_kept t policy, ?_⟩
  intro hsuccess step hstep
  have hinstalled := RlimitCalls.applyRlimit_success hsuccess
  have hlimit : ∃ resource, step = .limit policy resource := by
    rcases List.mem_append.mp hstep with hmem | hmem
    · exact ⟨.nofile, mem_limitSteps hmem⟩
    · exact ⟨.core, mem_limitSteps hmem⟩
  obtain ⟨resource, rfl⟩ := hlimit
  exact inForce_limit_of_installed _ (hinstalled resource)

theorem wrote_request {request : Request} {r : Traced Setting ApplyResult}
    (h : request.apply calls rl = .ok r) :
    Wrote request.steps r.events r.value.success t
      (request.write calls rl t) := by
  cases request with
  | affinity text => exact wrote_affinity t h
  | nice value =>
      obtain rfl := Except.ok.inj h
      exact wrote_nice t value
  | rlim policy =>
      obtain rfl := Except.ok.inj h
      exact wrote_limits t policy
  | oomScoreAdj adj =>
      obtain rfl := Except.ok.inj h
      exact wrote_oomScoreAdj t adj

end Blocks

theorem Wrote.append {front back : List Step} {changed later : List Setting}
    {success : Bool} {t t' t'' : Target}
    (hdistinct : ((front ++ back).map Step.setting).Nodup)
    (hfront : Wrote front changed true t t')
    (hback : Wrote back later success t' t'') :
    Wrote (front ++ back) (changed ++ later) success t t'' where
  asked := by
    rw [List.map_append]
    rintro setting hmem
    exact List.mem_append.mpr ((List.mem_append.mp hmem).imp
      (hfront.asked setting) (hback.asked setting))
  kept setting hkept :=
    (hback.kept setting (mt (List.mem_append_right _) hkept)).trans
      (hfront.kept setting (mt (List.mem_append_left _) hkept))
  done hsuccess := by
    rw [List.map_append] at hdistinct
    refine List.forall_mem_append.mpr ⟨fun step hstep => ?_, hback.done hsuccess⟩
    refine (hfront.done rfl step hstep).congr (hback.kept _ fun hlater => ?_)
    exact List.disjoint_of_nodup_append hdistinct (List.mem_map_of_mem hstep)
      (hback.asked _ hlater)

theorem Wrote.stop {front back : List Step} {changed : List Setting}
    {t t' : Target} (h : Wrote front changed false t t') :
    Wrote (front ++ back) changed false t t' where
  asked setting hmem := by
    rw [List.map_append]
    exact List.mem_append_left _ (h.asked setting hmem)
  kept := h.kept
  done hsuccess := absurd hsuccess Bool.false_ne_true

theorem wrote_all {calls : RuleCalls} {rl : Rlimit} {requests : List Request}
    (hdistinct : ((requests.flatMap Request.steps).map Step.setting).Nodup)
    {applied : UInt8} {r : Traced Setting RulesResult} (t : Target)
    (h : calls.applyAll rl applied requests = .ok r) :
    Wrote (requests.flatMap Request.steps) r.events r.value.success t
      (calls.writeAll rl t requests) := by
  induction requests generalizing applied r t with
  | nil =>
      obtain rfl := Except.ok.inj h
      exact ⟨List.forall_mem_nil _, fun setting _ => .refl t setting,
        fun _ => List.forall_mem_nil _⟩
  | cons request requests ih =>
      rw [RuleCalls.applyAll, Data.bind_eq_ok] at h
      obtain ⟨first, hfirst, h⟩ := h
      have hwrote := wrote_request t hfirst
      rw [RuleCalls.writeAll, hfirst, List.flatMap_cons]
      rw [List.flatMap_cons] at hdistinct
      cases hsuccess : first.value.success with
      | false =>
          rw [hsuccess] at h hwrote
          obtain rfl := Except.ok.inj h
          simp only [hsuccess]
          exact hwrote.stop
      | true =>
          rw [hsuccess, if_pos rfl, Data.bind_eq_ok] at h
          rw [hsuccess] at hwrote
          obtain ⟨rest, hrest, h⟩ := h
          obtain rfl := Except.ok.inj h
          have hlater : ((requests.flatMap Request.steps).map
              Step.setting).Nodup := by
            rw [List.map_append] at hdistinct
            exact hdistinct.of_append_right
          simp only [hsuccess, if_true]
          exact hwrote.append hdistinct (ih hlater _ hrest)

theorem settings_distinct (msg : GovApplyMsg) :
    (msg.steps.map Step.setting).Nodup := by
  have hlimit : ∀ policy resource, List.Sublist
      ((limitSteps policy resource).map Step.setting) [resource.setting] := by
    intro policy resource
    rw [limitSteps]
    split
    · exact List.Sublist.refl _
    · exact List.nil_sublist _
  have hall : List.Sublist (msg.steps.map Step.setting)
      ([.cpuAffinity] ++ [.cpuNice] ++ ([.rlimNofile] ++ [.rlimCore]) ++
        [.oomScoreAdj]) := by
    simp only [GovApplyMsg.steps, GovApplyMsg.requests, List.flatMap_append,
      List.map_append]
    refine .append (.append (.append ?_ ?_) ?_) ?_
    · cases msg.cpu.bind CpuPolicy.affinity <;> simp [Request.steps, Step.setting]
    · cases msg.cpu.bind CpuPolicy.nice <;> simp [Request.steps, Step.setting]
    · cases msg.rlim with
      | none => simp
      | some policy =>
          simp only [Option.map_some, Option.toList_some, List.flatMap_cons,
            List.flatMap_nil, List.append_nil, Request.steps, List.map_append]
          exact .append (hlimit policy .nofile) (hlimit policy .core)
    · cases msg.oomScoreAdj <;> simp [Request.steps, Step.setting]
  exact .sublist hall (by decide)

/-- What `apply_rules` does to the process, whatever it answers. -/
theorem wrote_rules {calls : RuleCalls} {rl : Rlimit} {msg : GovApplyMsg}
    {r : Traced Setting RulesResult} (t : Target)
    (h : calls.applyRules rl msg = .ok r) :
    Wrote msg.steps r.events r.value.success t (calls.writeRules rl t msg) := by
  rw [RuleCalls.applyRules] at h
  rw [RuleCalls.writeRules]
  cases halive : calls.alive with
  | false =>
      rw [halive] at h
      obtain rfl := Except.ok.inj h
      exact .unchanged t
  | true =>
      rw [halive, if_pos rfl] at h
      exact wrote_all (settings_distinct msg) t h

end HeidiKernel.Gov
