import HeidiKernel.Daemon.Policy
import HeidiKernel.Data.Loop
import HeidiKernel.GovRule.View
import HeidiKernel.Kernel.StatusSocket

namespace HeidiKernel.Daemon

open HeidiKernel.Data
open HeidiKernel.Data.Numeric
open HeidiKernel.Gov (comma colon quote lbrace rbrace)

/-! `update_policy`: a copy of the policy is changed token by token and then
validated as a whole. -/

/-- What can end a request before it is answered: an exception of a conversion,
or the first or last character of an empty string. -/
inductive Crash
  | thrown (error : ConversionError)
  | emptyFront
  | emptyBack
  deriving DecidableEq, Repr

def orThrow {α : Type} : Except ConversionError α → Except Crash α
  | .ok value => .ok value
  | .error error => .error (.thrown error)

/-- The tokens `getline` finds between commas. Nothing behind the last comma is
no token. -/
def commaTokens (body : Bytes) : List Bytes :=
  let pieces := body.splitOn comma
  if pieces.getLast? = some [] then pieces.dropLast else pieces

def isPadding (c : UInt8) : Bool := isSpace c || c = lbrace || c = rbrace

def trimToken (token : Bytes) : Bytes :=
  (token.dropWhile isPadding).rdropWhile isPadding

def trimBlanks (value : Bytes) : Bytes :=
  (value.dropWhile isSpace).rdropWhile isSpace

/-- `if (key.front() == '"') key = key.substr(1);` -/
def trimFrontQuote : Bytes → Except Crash Bytes
  | [] => .error .emptyFront
  | c :: key => .ok (if c = quote then key else c :: key)

/-- `if (key.back() == '"') key = key.substr(0, key.size() - 1);` -/
def trimBackQuote (key : Bytes) : Except Crash Bytes :=
  match key.getLast? with
  | none => .error .emptyBack
  | some c => .ok (if c = quote then key.dropLast else key)

def keyText (token : Bytes) : Bytes := token.takeWhile (· ≠ colon)

def valueText (token : Bytes) : Bytes :=
  trimBlanks (token.dropWhile (· ≠ colon)).tail

/-- The key and the value of a token, if it has a colon. -/
def parseToken (token : Bytes) : Except Crash (Option (Bytes × Bytes)) :=
  let token := trimToken token
  if colon ∈ token then do
    let key ← trimFrontQuote (keyText token)
    let key ← trimBackQuote key
    pure (some (key, valueText token))
  else
    pure none

/-- An unknown key only sets a flag that nothing reads. -/
def assign (key value : Bytes) (policy : GovernorPolicy) :
    Except Crash GovernorPolicy :=
  if key = bytes "max_running_jobs" then do
    let limit ← orThrow (stoi value)
    pure { policy with maxRunningJobs := limit }
  else if key = bytes "max_queue_depth" then do
    let limit ← orThrow (stoi value)
    pure { policy with maxQueueDepth := limit }
  else if key = bytes "cpu_high_watermark_pct" then do
    let pct ← orThrow (Double.stod value)
    pure { policy with cpuHighWatermarkPct := pct }
  else if key = bytes "mem_high_watermark_pct" then do
    let pct ← orThrow (Double.stod value)
    pure { policy with memHighWatermarkPct := pct }
  else if key = bytes "cooldown_ms" then do
    let ms ← orThrow (stoull value)
    pure { policy with cooldownMs := ms }
  else if key = bytes "min_start_gap_ms" then do
    let ms ← orThrow (stoull value)
    pure { policy with minStartGapMs := ms }
  else
    pure policy

def assignToken (policy : GovernorPolicy) (token : Bytes) :
    Except Crash GovernorPolicy := do
  match ← parseToken token with
  | none => pure policy
  | some (key, value) => assign key value policy

/-- The reply that lists a policy under a title. -/
def printPolicy (title : String) (policy : GovernorPolicy) : Bytes :=
  bytes title ++
    bytes ("\nmax_running_jobs: " ++ toString policy.maxRunningJobs ++
      "\nmax_queue_depth: " ++ toString policy.maxQueueDepth ++ "\n") ++
    bytes "cpu_high_watermark_pct: " ++ policy.cpuHighWatermarkPct.print ++
    bytes "\nmem_high_watermark_pct: " ++ policy.memHighWatermarkPct.print ++
    bytes ("\ncooldown_ms: " ++ toString policy.cooldownMs ++
      "\nmin_start_gap_ms: " ++ toString policy.minStartGapMs ++ "\n")

def printErrors (errors : List PolicyValidationError) : Bytes :=
  bytes "error\nvalidation_failed\n" ++
    errors.flatMap fun error =>
      error.field ++ bytes ": " ++ error.message ++ [newline]

/-- The reply and the policy the governor is left with. -/
def updatePolicy (body : Bytes) (policy : GovernorPolicy) :
    Except Crash (Bytes × GovernorPolicy) := do
  let newPolicy ← (commaTokens body).foldlM assignToken policy
  let (result, policy) := policy.validateAndUpdate newPolicy
  if result.success then
    pure (printPolicy "policy_updated" result.effectivePolicy, policy)
  else
    pure (printErrors result.errors, policy)

/-- A field of the policy with its key and the conversion of its value. -/
structure Setting (α : Type) where
  key : String
  get : GovernorPolicy → α
  convert : Bytes → Except ConversionError α

namespace Setting

def maxRunningJobs : Setting Int32 where
  key := "max_running_jobs"
  get := GovernorPolicy.maxRunningJobs
  convert := stoi

def maxQueueDepth : Setting Int32 where
  key := "max_queue_depth"
  get := GovernorPolicy.maxQueueDepth
  convert := stoi

def cpuHighWatermarkPct : Setting Double where
  key := "cpu_high_watermark_pct"
  get := GovernorPolicy.cpuHighWatermarkPct
  convert := Double.stod

def memHighWatermarkPct : Setting Double where
  key := "mem_high_watermark_pct"
  get := GovernorPolicy.memHighWatermarkPct
  convert := Double.stod

def cooldownMs : Setting UInt64 where
  key := "cooldown_ms"
  get := GovernorPolicy.cooldownMs
  convert := stoull

def minStartGapMs : Setting UInt64 where
  key := "min_start_gap_ms"
  get := GovernorPolicy.minStartGapMs
  convert := stoull

end Setting

/-! What one token does: it changes the field of its key and no other. -/

@[simp] theorem orThrow_eq_ok {α : Type} {result : Except ConversionError α}
    {value : α} : orThrow result = .ok value ↔ result = .ok value := by
  cases result <;> simp [orThrow]

def knownKeys : List String :=
  ["max_running_jobs", "max_queue_depth", "cpu_high_watermark_pct",
    "mem_high_watermark_pct", "cooldown_ms", "min_start_gap_ms"]

/-- The ways an assignment can succeed. -/
inductive Assigned (value : Bytes) (policy : GovernorPolicy) :
    Bytes → GovernorPolicy → Prop
  | maxRunningJobs {limit : Int32} (h : stoi value = .ok limit) :
      Assigned value policy (bytes "max_running_jobs")
        { policy with maxRunningJobs := limit }
  | maxQueueDepth {limit : Int32} (h : stoi value = .ok limit) :
      Assigned value policy (bytes "max_queue_depth")
        { policy with maxQueueDepth := limit }
  | cpuHighWatermarkPct {pct : Double} (h : Double.stod value = .ok pct) :
      Assigned value policy (bytes "cpu_high_watermark_pct")
        { policy with cpuHighWatermarkPct := pct }
  | memHighWatermarkPct {pct : Double} (h : Double.stod value = .ok pct) :
      Assigned value policy (bytes "mem_high_watermark_pct")
        { policy with memHighWatermarkPct := pct }
  | cooldownMs {ms : UInt64} (h : stoull value = .ok ms) :
      Assigned value policy (bytes "cooldown_ms")
        { policy with cooldownMs := ms }
  | minStartGapMs {ms : UInt64} (h : stoull value = .ok ms) :
      Assigned value policy (bytes "min_start_gap_ms")
        { policy with minStartGapMs := ms }
  | unknown {key : Bytes} (h : ∀ known ∈ knownKeys, key ≠ bytes known) :
      Assigned value policy key policy

theorem assigned_of_assign {key value : Bytes}
    {policy policy' : GovernorPolicy}
    (h : assign key value policy = .ok policy') :
    Assigned value policy key policy' := by
  unfold assign at h
  split_ifs at h with hrunning hqueue hcpu hmem hcooldown hgap
  all_goals simp only [bind_eq_ok, orThrow_eq_ok, pure_eq_ok,
    Except.ok.injEq] at h
  · obtain ⟨limit, hlimit, rfl⟩ := h
    exact hrunning ▸ .maxRunningJobs hlimit
  · obtain ⟨limit, hlimit, rfl⟩ := h
    exact hqueue ▸ .maxQueueDepth hlimit
  · obtain ⟨pct, hpct, rfl⟩ := h
    exact hcpu ▸ .cpuHighWatermarkPct hpct
  · obtain ⟨pct, hpct, rfl⟩ := h
    exact hmem ▸ .memHighWatermarkPct hpct
  · obtain ⟨ms, hms, rfl⟩ := h
    exact hcooldown ▸ .cooldownMs hms
  · obtain ⟨ms, hms, rfl⟩ := h
    exact hgap ▸ .minStartGapMs hms
  · subst h
    exact .unknown (by simp [knownKeys, *])

namespace Setting

/-- An assignment sets the field if the key is its own, and leaves it alone
otherwise. -/
def Lawful {α : Type} (setting : Setting α) : Prop :=
  ∀ {key value : Bytes} {policy policy' : GovernorPolicy},
    Assigned value policy key policy' →
      if key = bytes setting.key then
        setting.convert value = .ok (setting.get policy')
      else
        setting.get policy' = setting.get policy

theorem maxRunningJobs_lawful : maxRunningJobs.Lawful := by
  intro key value policy policy' h
  cases h <;> simp_all [maxRunningJobs, knownKeys]

theorem maxQueueDepth_lawful : maxQueueDepth.Lawful := by
  intro key value policy policy' h
  cases h <;> simp_all [maxQueueDepth, knownKeys]

theorem cpuHighWatermarkPct_lawful : cpuHighWatermarkPct.Lawful := by
  intro key value policy policy' h
  cases h <;> simp_all [cpuHighWatermarkPct, knownKeys]

theorem memHighWatermarkPct_lawful : memHighWatermarkPct.Lawful := by
  intro key value policy policy' h
  cases h <;> simp_all [memHighWatermarkPct, knownKeys]

theorem cooldownMs_lawful : cooldownMs.Lawful := by
  intro key value policy policy' h
  cases h <;> simp_all [cooldownMs, knownKeys]

theorem minStartGapMs_lawful : minStartGapMs.Lawful := by
  intro key value policy policy' h
  cases h <;> simp_all [minStartGapMs, knownKeys]

end Setting

/-! The policy file is read with the same loop, but with the blanks of a value
left in place. -/

section Loop

variable (valueOf : Bytes → Bytes)

def parseWith (token : Bytes) : Except Crash (Option (Bytes × Bytes)) :=
  let token := trimToken token
  if colon ∈ token then do
    let key ← trimFrontQuote (keyText token)
    let key ← trimBackQuote key
    pure (some (key, valueOf token))
  else
    pure none

def assignWith (policy : GovernorPolicy) (token : Bytes) :
    Except Crash GovernorPolicy := do
  match ← parseWith valueOf token with
  | none => pure policy
  | some (key, value) => assign key value policy

def pairsWith (tokens : List Bytes) : List (Bytes × Bytes) :=
  tokens.filterMap fun token =>
    match parseWith valueOf token with
    | .ok pair => pair
    | .error _ => none

end Loop

/-! A whole body: the last token with a key decides. -/

/-- The key and the value of every token that has a colon. -/
def assignments (tokens : List Bytes) : List (Bytes × Bytes) :=
  tokens.filterMap fun token =>
    match parseToken token with
    | .ok pair => pair
    | .error _ => none

def lastValue? (key : String) (pairs : List (Bytes × Bytes)) : Option Bytes :=
  (pairs.filter fun pair => pair.1 = bytes key).getLast?.map Prod.snd

theorem lastValue?_concat (key : String) (pairs : List (Bytes × Bytes))
    (pair : Bytes × Bytes) :
    lastValue? key (pairs ++ [pair]) =
      if pair.1 = bytes key then some pair.2 else lastValue? key pairs := by
  by_cases hkey : pair.1 = bytes key <;> simp [lastValue?, hkey]

/-- The field holds the value of the last assignment with its key, or what it
held before if there is none. -/
def Setting.UpdatedBy {α : Type} (setting : Setting α)
    (pairs : List (Bytes × Bytes)) (old new : GovernorPolicy) : Prop :=
  match lastValue? setting.key pairs with
  | none => setting.get new = setting.get old
  | some value => setting.convert value = .ok (setting.get new)

section Loop

variable {valueOf : Bytes → Bytes}

theorem assignWith_eq_ok {policy policy' : GovernorPolicy} {token : Bytes} :
    assignWith valueOf policy token = .ok policy' ↔
      (parseWith valueOf token = .ok none ∧ policy = policy') ∨
        ∃ key value, parseWith valueOf token = .ok (some (key, value)) ∧
          assign key value policy = .ok policy' := by
  unfold assignWith
  cases parseWith valueOf token with
  | error crash => simp
  | ok pair =>
      cases pair with
      | none => simp
      | some pair =>
          obtain ⟨key, value⟩ := pair
          simp

theorem Setting.Lawful.updatedBy {α : Type} {setting : Setting α}
    (h : setting.Lawful) {tokens : List Bytes} {old new : GovernorPolicy}
    (hfold : tokens.foldlM (assignWith valueOf) old = .ok new) :
    setting.UpdatedBy (pairsWith valueOf tokens) old new := by
  induction tokens using List.reverseRecOn generalizing new with
  | nil =>
      obtain rfl : old = new := by simpa using hfold
      rfl
  | append_singleton tokens token ih =>
      rw [List.foldlM_append] at hfold
      obtain ⟨middle, hmiddle, hlast⟩ := bind_eq_ok.mp hfold
      have hupdated := ih hmiddle
      rw [List.foldlM_cons, bind_eq_ok] at hlast
      obtain ⟨last, hlast, hnew⟩ := hlast
      obtain rfl : last = new := by simpa using hnew
      rw [assignWith_eq_ok] at hlast
      rcases hlast with ⟨hparse, rfl⟩ | ⟨key, value, hparse, hassign⟩
      · have hsame : pairsWith valueOf (tokens ++ [token]) =
            pairsWith valueOf tokens := by
          simp [pairsWith, hparse]
        rwa [hsame]
      · have hpairs : pairsWith valueOf (tokens ++ [token]) =
            pairsWith valueOf tokens ++ [(key, value)] := by
          simp [pairsWith, hparse]
        have hlaw := h (assigned_of_assign hassign)
        rw [hpairs]
        unfold Setting.UpdatedBy at hupdated ⊢
        rw [lastValue?_concat]
        by_cases hkey : key = bytes setting.key
        · rw [if_pos hkey] at hlaw
          simpa [hkey] using hlaw
        · rw [if_neg hkey] at hlaw
          simpa [hkey, hlaw] using hupdated

end Loop

/-- What an accepted body makes of the policy. -/
structure UpdatedBy (body : Bytes) (old new : GovernorPolicy) : Prop where
  maxRunningJobs :
    Setting.maxRunningJobs.UpdatedBy (assignments (commaTokens body)) old new
  maxQueueDepth :
    Setting.maxQueueDepth.UpdatedBy (assignments (commaTokens body)) old new
  cpuHighWatermarkPct :
    Setting.cpuHighWatermarkPct.UpdatedBy (assignments (commaTokens body)) old
      new
  memHighWatermarkPct :
    Setting.memHighWatermarkPct.UpdatedBy (assignments (commaTokens body)) old
      new
  cooldownMs :
    Setting.cooldownMs.UpdatedBy (assignments (commaTokens body)) old new
  minStartGapMs :
    Setting.minStartGapMs.UpdatedBy (assignments (commaTokens body)) old new

theorem updatedBy_of_foldlM {body : Bytes} {old new : GovernorPolicy}
    (hfold : (commaTokens body).foldlM assignToken old = .ok new) :
    UpdatedBy body old new where
  maxRunningJobs := Setting.maxRunningJobs_lawful.updatedBy hfold
  maxQueueDepth := Setting.maxQueueDepth_lawful.updatedBy hfold
  cpuHighWatermarkPct := Setting.cpuHighWatermarkPct_lawful.updatedBy hfold
  memHighWatermarkPct := Setting.memHighWatermarkPct_lawful.updatedBy hfold
  cooldownMs := Setting.cooldownMs_lawful.updatedBy hfold
  minStartGapMs := Setting.minStartGapMs_lawful.updatedBy hfold

/-- The ways an update can go: the tokens crash it, the validation refuses it,
or the new policy takes effect. -/
inductive Outcome (body : Bytes) (policy : GovernorPolicy) :
    Except Crash (Bytes × GovernorPolicy) → Prop
  | crashed {crash : Crash}
      (hfold : (commaTokens body).foldlM assignToken policy = .error crash) :
      Outcome body policy (.error crash)
  | refused {new : GovernorPolicy}
      (hfold : (commaTokens body).foldlM assignToken policy = .ok new)
      (hinvalid : ¬new.Valid) :
      Outcome body policy (.ok (printErrors new.validationErrors, policy))
  | updated {new : GovernorPolicy}
      (hfold : (commaTokens body).foldlM assignToken policy = .ok new)
      (hvalid : new.Valid) :
      Outcome body policy (.ok (printPolicy "policy_updated" new, new))

theorem updatePolicy_outcome (body : Bytes) (policy : GovernorPolicy) :
    Outcome body policy (updatePolicy body policy) := by
  unfold updatePolicy
  cases hfold : (commaTokens body).foldlM assignToken policy with
  | error crash => exact .crashed hfold
  | ok new =>
      by_cases hvalid : new.Valid
      · rw [ok_bind, GovernorPolicy.validateAndUpdate_of_valid hvalid]
        exact .updated hfold hvalid
      · rw [ok_bind, GovernorPolicy.validateAndUpdate_of_not_valid hvalid]
        exact .refused hfold hvalid

/-- The policy after an update that may have crashed. -/
def applyUpdate (policy : GovernorPolicy) (body : Bytes) : GovernorPolicy :=
  match updatePolicy body policy with
  | .ok (_, policy) => policy
  | .error _ => policy

def policyAfter (bodies : List Bytes) : GovernorPolicy :=
  bodies.foldl applyUpdate {}

/-- The update is answered with a reply that starts with `policy_updated`. -/
def Accepted (body : Bytes) (policy : GovernorPolicy) : Prop :=
  ∃ reply new, updatePolicy body policy = .ok (reply, new) ∧
    bytes "policy_updated" <+: reply

theorem printPolicy_prefix (title : String) (policy : GovernorPolicy) :
    bytes title <+: printPolicy title policy := by
  simp only [printPolicy, List.append_assoc]
  exact List.prefix_append _ _

theorem not_prefix_printErrors (errors : List PolicyValidationError) :
    ¬bytes "policy_updated" <+: printErrors errors := by
  intro h
  have htitle : bytes "policy_updated" = 0x70 :: (bytes "policy_updated").tail := by
    decide +kernel
  have herror : bytes "error\nvalidation_failed\n" =
      0x65 :: (bytes "error\nvalidation_failed\n").tail := by
    decide +kernel
  rw [printErrors, htitle, herror, List.cons_append, List.cons_prefix_cons] at h
  exact absurd h.1 (by decide)

/-- One update: a crash or a refusal leaves the policy as it was. -/
theorem applyUpdate_spec (policy : GovernorPolicy) (body : Bytes) :
    (Accepted body policy ∧ (applyUpdate policy body).Valid ∧
        UpdatedBy body policy (applyUpdate policy body)) ∨
      (¬Accepted body policy ∧ applyUpdate policy body = policy) := by
  have houtcome := updatePolicy_outcome body policy
  unfold Accepted applyUpdate
  generalize updatePolicy body policy = result at houtcome
  cases houtcome with
  | crashed hfold =>
      right
      exact ⟨by simp, rfl⟩
  | refused hfold hinvalid =>
      right
      refine ⟨?_, rfl⟩
      rintro ⟨reply, new, heq, hprefix⟩
      cases heq
      exact not_prefix_printErrors _ hprefix
  | updated hfold hvalid =>
      left
      exact ⟨⟨_, _, rfl, printPolicy_prefix _ _⟩, hvalid,
        updatedBy_of_foldlM hfold⟩

theorem policyAfter_valid (bodies : List Bytes) :
    (policyAfter bodies).Valid := by
  induction bodies using List.reverseRecOn with
  | nil => exact GovernorPolicy.default_valid
  | append_singleton bodies body ih =>
      rw [policyAfter, List.foldl_concat]
      rcases applyUpdate_spec (policyAfter bodies) body with
        ⟨_, hvalid, _⟩ | ⟨_, hsame⟩
      · exact hvalid
      · exact hsame ▸ ih

/-- After any sequence of updates the policy is valid; the last one has changed
nothing, or exactly the fields it names. -/
theorem updates_atomic (bodies : List Bytes) (body : Bytes) :
    let old := policyAfter bodies
    let new := policyAfter (bodies ++ [body])
    new.Valid ∧ (¬Accepted body old → new = old) ∧
      (Accepted body old → UpdatedBy body old new) := by
  intro old new
  have hnew : new = applyUpdate old body := List.foldl_concat _ _ _ _
  refine ⟨policyAfter_valid _, ?_, ?_⟩
  · intro hrefused
    rw [hnew]
    exact ((applyUpdate_spec old body).resolve_left fun h =>
      hrefused h.1).2
  · intro haccepted
    rw [hnew]
    exact ((applyUpdate_spec old body).resolve_right fun h =>
      h.1 haccepted).2.2

end HeidiKernel.Daemon
