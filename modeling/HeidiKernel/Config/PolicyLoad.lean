import HeidiKernel.Config.PolicyStore
import HeidiKernel.Daemon.RequestHandler

namespace HeidiKernel.Daemon

open HeidiKernel.Data
open HeidiKernel.Data.Numeric
open HeidiKernel.Gov (comma colon quote)

/-! Which policy files are loaded as the validation of the governor wants
them. -/

/-- The value of the last setting with the key, if it is one that passes the
check, and otherwise the default. -/
def Setting.fallback {α : Type} (setting : Setting α) (outside : α → Bool)
    (pairs : List (Bytes × Bytes)) : α :=
  match lastValue? setting.key pairs with
  | none => setting.get {}
  | some value =>
      match setting.convert value with
      | .error _ => setting.get {}
      | .ok x => if outside x then setting.get {} else x

namespace PolicyStore

/-- The settings a file holds, those behind a broken key left out. -/
def settings (content : Bytes) : List (Bytes × Bytes) :=
  pairsWith storedValue (commaTokens content)

/-- Every field holds its last setting, or its default if there is none or an
invalid one. -/
structure FellBack (pairs : List (Bytes × Bytes)) (policy : GovernorPolicy) :
    Prop where
  maxRunningJobs : policy.maxRunningJobs =
    Setting.maxRunningJobs.fallback (limitOutside · 1 1000) pairs
  maxQueueDepth : policy.maxQueueDepth =
    Setting.maxQueueDepth.fallback (limitOutside · 1 10000) pairs
  cpuHighWatermarkPct : policy.cpuHighWatermarkPct =
    Setting.cpuHighWatermarkPct.fallback percentageOutside pairs
  memHighWatermarkPct : policy.memHighWatermarkPct =
    Setting.memHighWatermarkPct.fallback percentageOutside pairs
  cooldownMs : policy.cooldownMs =
    Setting.cooldownMs.fallback (fun _ => false) pairs
  minStartGapMs : policy.minStartGapMs =
    Setting.minStartGapMs.fallback (fun _ => false) pairs

/-- The governor takes the policy over, whatever policy it has. -/
def Acceptable (policy : GovernorPolicy) : Prop :=
  ∀ current : GovernorPolicy, (current.validateAndUpdate policy).1.success = true

/-- The load ends with a policy that the governor would accept, and in which
nothing but the invalid fields fell back. -/
def LoadsValid (store : PolicyStore) (dir : Directory Bytes UInt8) : Prop :=
  ∃ policy, store.load dir = .ok policy ∧ Acceptable policy ∧
    ∀ content, dir.lookup store.path = some content →
      FellBack (settings content) policy

/-- A token without a colon, or with a key that is neither empty nor a lone
quote, and a value the key can take. -/
def SafeSetting (token : Bytes) : Prop :=
  colon ∈ trimToken token →
    keyText (trimToken token) ≠ [] ∧ keyText (trimToken token) ≠ [quote] ∧
      Convertible (bareKey (keyText (trimToken token)))
        (storedValue (trimToken token))

/-- The last value of a watermark, if there is one, is a number from zero to a
hundred. -/
def WatermarkInside (key : String) (content : Bytes) : Prop :=
  ∀ value, lastValue? key (settings content) = some value →
    ∀ pct, Double.stod value = .ok pct →
      ∃ q, pct.toRat? = some q ∧ 0 ≤ q ∧ q ≤ 100

/-- The file crashes no conversion, and the watermarks that nothing checks are
in their range. -/
structure SafeFile (content : Bytes) : Prop where
  tokens : ∀ token ∈ commaTokens content, SafeSetting token
  cpuHighWatermarkPct : WatermarkInside "cpu_high_watermark_pct" content
  memHighWatermarkPct : WatermarkInside "mem_high_watermark_pct" content

theorem acceptable_iff {policy : GovernorPolicy} :
    Acceptable policy ↔ policy.Valid := by
  constructor
  · intro h
    by_contra hinvalid
    have haccepted := h {}
    rw [GovernorPolicy.validateAndUpdate_of_not_valid hinvalid] at haccepted
    cases haccepted
  · intro hvalid current
    rw [GovernorPolicy.validateAndUpdate_of_valid hvalid]

theorem exists_foldlM_load_iff (content : Bytes) :
    (∃ new, (commaTokens content).foldlM loadToken {} = .ok new) ↔
      ∀ token ∈ commaTokens content, SafeSetting token := by
  apply foldlM_succeeds_iff
  intro policy token
  exact exists_assignWith_iff storedValue policy

theorem load_eq_ok {store : PolicyStore} {dir : Directory Bytes UInt8}
    {content : Bytes} (hfile : dir.lookup store.path = some content)
    {policy : GovernorPolicy} :
    store.load dir = .ok policy ↔
      ∃ new, (commaTokens content).foldlM loadToken {} = .ok new ∧
        checkRanges new = policy := by
  rw [load, hfile]
  simp only [bind_eq_ok, pure_eq_ok, Except.ok.injEq]

theorem fallback_eq {α : Type} {setting : Setting α} (outside : α → Bool)
    {pairs : List (Bytes × Bytes)} {new : GovernorPolicy}
    (h : setting.UpdatedBy pairs {} new) :
    setting.fallback outside pairs =
      if outside (setting.get new) then setting.get {} else setting.get new := by
  unfold Setting.UpdatedBy at h
  unfold Setting.fallback
  cases hlast : lastValue? setting.key pairs with
  | none =>
      rw [hlast] at h
      simp only [h, ite_self]
  | some value =>
      rw [hlast] at h
      simp only [h]

/-- A limit out of its range gives way to a default within. -/
theorem checked_limit (low high default value : Int32)
    (h : limitOutside default low high = false) :
    limitOutside (if limitOutside value low high then default else value) low
      high = false := by
  cases hvalue : limitOutside value low high with
  | true => exact h
  | false => exact hvalue

section Fold

variable {content : Bytes} {new : GovernorPolicy}
  (hfold : (commaTokens content).foldlM loadToken {} = .ok new)

include hfold

theorem loaded_updatedBy {α : Type} {setting : Setting α}
    (h : setting.Lawful) : setting.UpdatedBy (settings content) {} new :=
  h.updatedBy hfold

/-- A watermark is what its last setting says, or its default. -/
theorem watermarkInside_iff {setting : Setting Double} (hlawful : setting.Lawful)
    (hconvert : setting.convert = Double.stod)
    (hdefault : percentageOutside (setting.get {}) = false) :
    percentageOutside (setting.get new) = false ↔
      WatermarkInside setting.key content := by
  have hupdated := loaded_updatedBy hfold hlawful
  unfold Setting.UpdatedBy at hupdated
  rw [WatermarkInside]
  cases hlast : lastValue? setting.key (settings content) with
  | none =>
      rw [hlast] at hupdated
      rw [hupdated, hdefault]
      simp
  | some value =>
      rw [hlast, hconvert] at hupdated
      rw [percentageOutside_eq_false]
      constructor
      · intro hinside value' hvalue pct hpct
        cases hvalue
        rw [hupdated] at hpct
        cases hpct
        exact hinside
      · intro hinside
        exact hinside value rfl _ hupdated

/-- The limits are checked, so only the watermarks can spoil what is loaded. -/
theorem checkRanges_valid_iff :
    Acceptable (checkRanges new) ↔
      WatermarkInside "cpu_high_watermark_pct" content ∧
        WatermarkInside "mem_high_watermark_pct" content := by
  have hrunning := limitOutside_eq_false.mp
    (checked_limit 1 1000 10 new.maxRunningJobs (by decide))
  have hqueue := limitOutside_eq_false.mp
    (checked_limit 1 10000 100 new.maxQueueDepth (by decide))
  have hdefault := GovernorPolicy.default_valid
  have hcpu := watermarkInside_iff hfold Setting.cpuHighWatermarkPct_lawful rfl
    (percentageOutside_eq_false.mpr hdefault.cpuHighWatermarkPct)
  have hmem := watermarkInside_iff hfold Setting.memHighWatermarkPct_lawful rfl
    (percentageOutside_eq_false.mpr hdefault.memHighWatermarkPct)
  rw [percentageOutside_eq_false] at hcpu hmem
  rw [acceptable_iff]
  constructor
  · intro h
    exact ⟨hcpu.mp h.cpuHighWatermarkPct, hmem.mp h.memHighWatermarkPct⟩
  · intro h
    exact ⟨hrunning, hqueue, hcpu.mpr h.1, hmem.mpr h.2⟩

theorem checkRanges_fellBack
    (hvalid : Acceptable (checkRanges new)) :
    FellBack (settings content) (checkRanges new) := by
  rw [acceptable_iff] at hvalid
  have hcpu : percentageOutside (Setting.cpuHighWatermarkPct.get new) = false :=
    percentageOutside_eq_false.mpr hvalid.cpuHighWatermarkPct
  have hmem : percentageOutside (Setting.memHighWatermarkPct.get new) = false :=
    percentageOutside_eq_false.mpr hvalid.memHighWatermarkPct
  constructor
  · rw [fallback_eq _ (loaded_updatedBy hfold Setting.maxRunningJobs_lawful)]
    rfl
  · rw [fallback_eq _ (loaded_updatedBy hfold Setting.maxQueueDepth_lawful)]
    rfl
  · rw [fallback_eq _
      (loaded_updatedBy hfold Setting.cpuHighWatermarkPct_lawful), hcpu]
    rfl
  · rw [fallback_eq _
      (loaded_updatedBy hfold Setting.memHighWatermarkPct_lawful), hmem]
    rfl
  · rw [fallback_eq _ (loaded_updatedBy hfold Setting.cooldownMs_lawful)]
    rfl
  · rw [fallback_eq _ (loaded_updatedBy hfold Setting.minStartGapMs_lawful)]
    rfl

end Fold

/-- A missing file is no danger, and a file exactly if it is safe. -/
theorem load_valid_iff (store : PolicyStore) (dir : Directory Bytes UInt8) :
    store.LoadsValid dir ↔
      ∀ content, dir.lookup store.path = some content → SafeFile content := by
  cases hfile : dir.lookup store.path with
  | none =>
      refine iff_of_true ⟨{}, ?_, ?_, ?_⟩ ?_
      · rw [load, hfile]
        rfl
      · exact acceptable_iff.mpr GovernorPolicy.default_valid
      · intro content hsome
        rw [hfile] at hsome
        cases hsome
      · intro content hsome
        cases hsome
  | some content =>
      constructor
      · intro h other hother
        obtain rfl := Option.some.inj hother
        obtain ⟨policy, hload, hvalid, _⟩ := h
        obtain ⟨new, hfold, rfl⟩ := (load_eq_ok hfile).mp hload
        obtain ⟨hcpu, hmem⟩ := (checkRanges_valid_iff hfold).mp hvalid
        exact ⟨(exists_foldlM_load_iff content).mp ⟨new, hfold⟩, hcpu, hmem⟩
      · intro h
        obtain ⟨htokens, hcpu, hmem⟩ := h content rfl
        obtain ⟨new, hfold⟩ := (exists_foldlM_load_iff content).mpr htokens
        have hvalid := (checkRanges_valid_iff hfold).mpr ⟨hcpu, hmem⟩
        refine ⟨checkRanges new, (load_eq_ok hfile).mpr ⟨new, hfold, rfl⟩,
          hvalid, ?_⟩
        intro other hother
        rw [hfile] at hother
        obtain rfl := Option.some.inj hother
        exact checkRanges_fellBack hfold hvalid

/-- A directory with one policy file. -/
def policyFile (content : String) : Directory Bytes UInt8 :=
  (∅ : Directory Bytes UInt8).write (bytes "policy.json") (bytes content)

/-- A value that is no number throws, an empty key has no first character, and
a watermark beyond a hundred is loaded as it is. -/
theorem load_poisoned :
    crashOf ((⟨bytes "policy.json"⟩ : PolicyStore).load
        (policyFile "\x7b\"max_running_jobs\": abc\x7d")) =
          some (.thrown .invalidArgument) ∧
      crashOf ((⟨bytes "policy.json"⟩ : PolicyStore).load
        (policyFile ":5")) = some .emptyFront ∧
      ((⟨bytes "policy.json"⟩ : PolicyStore).load
        (policyFile "\x7b\"cpu_high_watermark_pct\": 150\x7d")).toOption.map
          (·.validationErrors.map (·.field)) =
            some [bytes "cpu_high_watermark_pct"] ∧
      ¬∀ (store : PolicyStore) (dir : Directory Bytes UInt8),
        store.LoadsValid dir := by
  have hempty : crashOf ((⟨bytes "policy.json"⟩ : PolicyStore).load
      (policyFile ":5")) = some .emptyFront := by
    decide +kernel
  refine ⟨by decide +kernel, hempty, by decide +kernel, ?_⟩
  intro h
  obtain ⟨policy, hload, _⟩ := h ⟨bytes "policy.json"⟩ (policyFile ":5")
  rw [hload] at hempty
  cases hempty

end PolicyStore

end HeidiKernel.Daemon
