import HeidiKernel.Data.Double

namespace HeidiKernel.Daemon

open HeidiKernel.Data

/-! The policy as the daemon stores it, and the validation in front of every
update. -/

structure GovernorPolicy where
  maxRunningJobs : Int32 := 10
  maxQueueDepth : Int32 := 100
  cpuHighWatermarkPct : Double := .ofNat 85
  memHighWatermarkPct : Double := .ofNat 90
  cooldownMs : UInt64 := 1000
  minStartGapMs : UInt64 := 100
  deriving DecidableEq

structure PolicyValidationError where
  field : Bytes
  message : Bytes
  deriving DecidableEq, Repr

structure PolicyUpdateResult where
  success : Bool
  effectivePolicy : GovernorPolicy
  errors : List PolicyValidationError

/-- One check of the validation. -/
def check (bad : Bool) (field message : String) : List PolicyValidationError :=
  if bad then [⟨bytes field, bytes message⟩] else []

def limitOutside (value low high : Int32) : Bool := value < low || high < value

def percentageOutside (value : Double) : Bool :=
  value.isNan || value.lt (.ofNat 0) || (Double.ofNat 100).lt value

namespace GovernorPolicy

def checkMaxRunningJobs (policy : GovernorPolicy) :
    List PolicyValidationError :=
  check (limitOutside policy.maxRunningJobs 1 1000) "max_running_jobs"
    "must be between 1 and 1000"

def checkMaxQueueDepth (policy : GovernorPolicy) :
    List PolicyValidationError :=
  check (limitOutside policy.maxQueueDepth 1 10000) "max_queue_depth"
    "must be between 1 and 10000"

def checkCpuHighWatermarkPct (policy : GovernorPolicy) :
    List PolicyValidationError :=
  check (percentageOutside policy.cpuHighWatermarkPct)
    "cpu_high_watermark_pct" "must be between 0 and 100"

def checkMemHighWatermarkPct (policy : GovernorPolicy) :
    List PolicyValidationError :=
  check (percentageOutside policy.memHighWatermarkPct)
    "mem_high_watermark_pct" "must be between 0 and 100"

def validationErrors (policy : GovernorPolicy) : List PolicyValidationError :=
  policy.checkMaxRunningJobs ++ policy.checkMaxQueueDepth ++
    policy.checkCpuHighWatermarkPct ++ policy.checkMemHighWatermarkPct

/-- The result of `validate_and_update` and the policy it leaves in place. -/
def validateAndUpdate (current policy : GovernorPolicy) :
    PolicyUpdateResult × GovernorPolicy :=
  let errors := policy.validationErrors
  if errors = [] then
    (⟨true, policy, []⟩, policy)
  else
    (⟨false, current, errors⟩, current)

/-- Both limits and both watermarks are in their ranges; the watermarks are
numbers. -/
structure Valid (policy : GovernorPolicy) : Prop where
  maxRunningJobs : 1 ≤ policy.maxRunningJobs.toInt ∧
    policy.maxRunningJobs.toInt ≤ 1000
  maxQueueDepth : 1 ≤ policy.maxQueueDepth.toInt ∧
    policy.maxQueueDepth.toInt ≤ 10000
  cpuHighWatermarkPct : ∃ pct, policy.cpuHighWatermarkPct.toRat? = some pct ∧
    0 ≤ pct ∧ pct ≤ 100
  memHighWatermarkPct : ∃ pct, policy.memHighWatermarkPct.toRat? = some pct ∧
    0 ≤ pct ∧ pct ≤ 100

end GovernorPolicy

@[simp] theorem check_eq_nil {bad : Bool} {field message : String} :
    check bad field message = [] ↔ bad = false := by
  cases bad <;> simp [check]

theorem limitOutside_eq_false {value low high : Int32} :
    limitOutside value low high = false ↔
      low.toInt ≤ value.toInt ∧ value.toInt ≤ high.toInt := by
  simp [limitOutside, Int32.lt_iff_toInt_lt]

theorem percentageOutside_eq_false {value : Double} :
    percentageOutside value = false ↔
      ∃ pct, value.toRat? = some pct ∧ 0 ≤ pct ∧ pct ≤ 100 := by
  have hbetween := Double.between_iff (by decide : 0 < 2 ^ 53)
    (by decide : 100 < 2 ^ 53) value
  rw [percentageOutside, hbetween]
  norm_num

namespace GovernorPolicy

/-- The validation accepts exactly the valid policies. -/
theorem validationErrors_eq_nil_iff {policy : GovernorPolicy} :
    policy.validationErrors = [] ↔ policy.Valid := by
  simp only [validationErrors, List.append_eq_nil_iff, checkMaxRunningJobs,
    checkMaxQueueDepth, checkCpuHighWatermarkPct, checkMemHighWatermarkPct,
    check_eq_nil, limitOutside_eq_false, percentageOutside_eq_false]
  constructor
  · rintro ⟨⟨⟨hrunning, hqueue⟩, hcpu⟩, hmem⟩
    exact ⟨hrunning, hqueue, hcpu, hmem⟩
  · rintro ⟨hrunning, hqueue, hcpu, hmem⟩
    exact ⟨⟨⟨hrunning, hqueue⟩, hcpu⟩, hmem⟩

theorem default_valid : ({} : GovernorPolicy).Valid where
  maxRunningJobs := by decide
  maxQueueDepth := by decide
  cpuHighWatermarkPct := by
    rw [Double.ofNat_of_lt (n := 85) (by decide)]
    exact ⟨85, by simp [Double.toRat?, Double.signed], by norm_num, by norm_num⟩
  memHighWatermarkPct := by
    rw [Double.ofNat_of_lt (n := 90) (by decide)]
    exact ⟨90, by simp [Double.toRat?, Double.signed], by norm_num, by norm_num⟩

theorem validateAndUpdate_of_valid {current policy : GovernorPolicy}
    (h : policy.Valid) :
    current.validateAndUpdate policy = (⟨true, policy, []⟩, policy) := by
  rw [validateAndUpdate, if_pos (validationErrors_eq_nil_iff.mpr h)]

theorem validateAndUpdate_of_not_valid {current policy : GovernorPolicy}
    (h : ¬policy.Valid) :
    current.validateAndUpdate policy =
      (⟨false, current, policy.validationErrors⟩, current) := by
  rw [validateAndUpdate, if_neg (mt validationErrors_eq_nil_iff.mp h)]

end GovernorPolicy

end HeidiKernel.Daemon
