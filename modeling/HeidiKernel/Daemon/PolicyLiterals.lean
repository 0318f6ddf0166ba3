import HeidiKernel.Daemon.PolicyUpdate
import HeidiKernel.Data.Literal

namespace HeidiKernel.Daemon

open HeidiKernel.Data
open HeidiKernel.Data.Numeric

/-! Which accepted updates take effect as they are written. -/

/-- The value that takes effect for a field, if the body names the field, is an
integer literal, and the field holds that integer. -/
def Setting.Meant {α : Type} (setting : Setting α) (toInt : α → Int)
    (body : Bytes) (new : GovernorPolicy) : Prop :=
  ∀ value, lastValue? setting.key (assignments (commaTokens body)) = some value →
    ∃ n, Literal value n ∧ toInt (setting.get new) = n

structure Meant (body : Bytes) (new : GovernorPolicy) : Prop where
  maxRunningJobs : Setting.maxRunningJobs.Meant Int32.toInt body new
  maxQueueDepth : Setting.maxQueueDepth.Meant Int32.toInt body new
  cooldownMs : Setting.cooldownMs.Meant (fun ms => ms.toNat) body new
  minStartGapMs : Setting.minStartGapMs.Meant (fun ms => ms.toNat) body new

/-- The value that takes effect for a key is a literal of an integer that is
allowed. -/
def LiteralValue (key : String) (allowed : Int → Prop) (body : Bytes) : Prop :=
  ∀ value, lastValue? key (assignments (commaTokens body)) = some value →
    ∃ n, Literal value n ∧ allowed n

/-- The limits are written as integers, the durations as natural numbers. -/
structure Literals (body : Bytes) : Prop where
  maxRunningJobs : LiteralValue "max_running_jobs" (fun _ => True) body
  maxQueueDepth : LiteralValue "max_queue_depth" (fun _ => True) body
  cooldownMs : LiteralValue "cooldown_ms" (0 ≤ ·) body
  minStartGapMs : LiteralValue "min_start_gap_ms" (0 ≤ ·) body

/-- A field is as meant where its conversion keeps the literals that are
allowed. -/
theorem Setting.meant_iff {α : Type} {setting : Setting α} {toInt : α → Int}
    {allowed : Int → Prop}
    (hconvert : ∀ {value n x}, Literal value n → setting.convert value = .ok x →
      (toInt x = n ↔ allowed n))
    {body : Bytes} {old new : GovernorPolicy}
    (h : setting.UpdatedBy (assignments (commaTokens body)) old new) :
    setting.Meant toInt body new ↔ LiteralValue setting.key allowed body := by
  refine forall₂_congr fun value hvalue => exists_congr fun n => ?_
  unfold Setting.UpdatedBy at h
  rw [hvalue] at h
  exact and_congr_right fun hliteral => hconvert hliteral h

/-- An accepted update takes effect as it is written exactly if its integers
are literals, and those for the durations not negative. -/
theorem update_meant_iff {body : Bytes} {policy : GovernorPolicy}
    (h : Accepted body policy) :
    Meant body (applyUpdate policy body) ↔ Literals body := by
  have hupdated : UpdatedBy body policy (applyUpdate policy body) :=
    ((applyUpdate_spec policy body).resolve_right fun hrefused =>
      hrefused.1 h).2.2
  have hlimit : ∀ {value n x}, Literal value n → stoi value = .ok x →
      (x.toInt = n ↔ True) :=
    fun hliteral hread => iff_true_intro (hliteral.stoi hread)
  have hduration : ∀ {value n x}, Literal value n → stoull value = .ok x →
      ((x.toNat : Int) = n ↔ 0 ≤ n) :=
    fun hliteral hread => hliteral.stoull hread
  have hrunning := Setting.meant_iff hlimit hupdated.maxRunningJobs
  have hqueue := Setting.meant_iff hlimit hupdated.maxQueueDepth
  have hcooldown := Setting.meant_iff hduration hupdated.cooldownMs
  have hgap := Setting.meant_iff hduration hupdated.minStartGapMs
  constructor
  · intro hmeant
    exact ⟨hrunning.mp hmeant.maxRunningJobs, hqueue.mp hmeant.maxQueueDepth,
      hcooldown.mp hmeant.cooldownMs, hgap.mp hmeant.minStartGapMs⟩
  · intro hliterals
    exact ⟨hrunning.mpr hliterals.maxRunningJobs,
      hqueue.mpr hliterals.maxQueueDepth, hcooldown.mpr hliterals.cooldownMs,
      hgap.mpr hliterals.minStartGapMs⟩

theorem accepted_of_ne {body : Bytes} {policy : GovernorPolicy}
    (h : applyUpdate policy body ≠ policy) : Accepted body policy :=
  ((applyUpdate_spec policy body).resolve_right fun hrefused =>
    h hrefused.2).1

theorem update_meant_iff_seven :
    Meant (bytes "max_queue_depth: 7")
      (applyUpdate {} (bytes "max_queue_depth: 7")) := by
  have hchanged : (applyUpdate {} (bytes "max_queue_depth: 7")).maxQueueDepth =
      7 := by
    decide +kernel
  have haccepted : Accepted (bytes "max_queue_depth: 7") {} := by
    apply accepted_of_ne
    intro hsame
    rw [hsame] at hchanged
    exact absurd hchanged (by decide)
  have hother : ∀ key ∈ ["max_running_jobs", "cooldown_ms", "min_start_gap_ms"],
      lastValue? key (assignments (commaTokens (bytes "max_queue_depth: 7"))) =
        none := by
    decide +kernel
  simp only [List.forall_mem_cons] at hother
  obtain ⟨hrunning, hcooldown, hgap, _⟩ := hother
  have hqueue : lastValue? "max_queue_depth"
      (assignments (commaTokens (bytes "max_queue_depth: 7"))) =
        some [0x37] := by
    decide +kernel
  refine (update_meant_iff haccepted).mpr ⟨?_, ?_, ?_, ?_⟩
  · intro value hvalue
    rw [hrunning] at hvalue
    cases hvalue
  · intro value hvalue
    rw [hqueue] at hvalue
    obtain rfl := Option.some.inj hvalue
    have hseven : DigitText [0x37] :=
      ⟨List.cons_ne_nil _ _, List.forall_mem_singleton.mpr rfl⟩
    exact ⟨7, .unsigned hseven, trivial⟩
  · intro value hvalue
    rw [hcooldown] at hvalue
    cases hvalue
  · intro value hvalue
    rw [hgap] at hvalue
    cases hvalue

/-- A negative duration is the largest ones, and a fraction or a suffix is
dropped. -/
theorem update_wraps :
    (applyUpdate {} (bytes "cooldown_ms: -1")).cooldownMs.toNat = 2 ^ 64 - 1 ∧
      (applyUpdate {} (bytes "max_queue_depth: 7.9")).maxQueueDepth = 7 ∧
      (applyUpdate {} (bytes "max_running_jobs: 20abc")).maxRunningJobs = 20 ∧
      ¬∀ (body : Bytes) (policy : GovernorPolicy), Accepted body policy →
        Meant body (applyUpdate policy body) := by
  have hwraps : (applyUpdate {} (bytes "cooldown_ms: -1")).cooldownMs.toNat =
      2 ^ 64 - 1 := by
    decide +kernel
  refine ⟨hwraps, by decide +kernel, by decide +kernel, ?_⟩
  intro h
  have haccepted : Accepted (bytes "cooldown_ms: -1") {} := by
    apply accepted_of_ne
    intro hsame
    rw [hsame] at hwraps
    exact absurd hwraps (by decide)
  have hvalue : lastValue? "cooldown_ms"
      (assignments (commaTokens (bytes "cooldown_ms: -1"))) =
        some [0x2d, 0x31] := by
    decide +kernel
  obtain ⟨n, hliteral, hn⟩ := (h _ _ haccepted).cooldownMs _ hvalue
  obtain ⟨negative, m, hread, rfl⟩ := hliteral.readDecimal?
  have hminus : readDecimal? [0x2d, 0x31] = some (true, 1) := by decide
  rw [hminus] at hread
  obtain ⟨rfl, rfl⟩ := Prod.mk.inj (Option.some.inj hread)
  change ((applyUpdate {} (bytes "cooldown_ms: -1")).cooldownMs.toNat : Int) =
    -1 at hn
  omega

end HeidiKernel.Daemon
