import Mathlib.Data.Rat.Defs
import Mathlib.Algebra.Order.Ring.Rat

namespace HeidiKernel

/-! The admission rules of the resource governor. Percentages are exact
rationals. -/

inductive GovernorDecision
  | startNow
  | holdQueue
  | rejectQueueFull
  deriving DecidableEq, Repr

inductive BlockReason
  | none
  | cpuHigh
  | memHigh
  | queueFull
  | runningLimit
  deriving DecidableEq, Repr

structure GovernorResult where
  decision : GovernorDecision
  reason : BlockReason
  retryAfterMs : UInt64
  deriving DecidableEq, Repr

structure GovernorPolicy where
  maxRunningJobs : Int := 10
  maxQueueDepth : Int := 100
  cpuHighWatermarkPct : ℚ := 85
  memHighWatermarkPct : ℚ := 90
  cooldownMs : UInt64 := 1000
  minStartGapMs : UInt64 := 100
  deriving DecidableEq, Repr

structure ResourceGovernor where
  policy : GovernorPolicy := {}
  deriving DecidableEq, Repr

namespace ResourceGovernor

def decide (governor : ResourceGovernor) (cpuPct memPct : ℚ)
    (runningJobs queuedJobs : Int) : GovernorResult :=
  let policy := governor.policy
  if queuedJobs ≥ policy.maxQueueDepth then
    ⟨.rejectQueueFull, .queueFull, policy.cooldownMs⟩
  else if runningJobs ≥ policy.maxRunningJobs then
    ⟨.holdQueue, .runningLimit, policy.minStartGapMs⟩
  else if cpuPct ≥ policy.cpuHighWatermarkPct then
    ⟨.holdQueue, .cpuHigh, policy.cooldownMs⟩
  else if memPct ≥ policy.memHighWatermarkPct then
    ⟨.holdQueue, .memHigh, policy.cooldownMs⟩
  else
    ⟨.startNow, .none, 0⟩

/-- The governor admits starts exactly when none of its four rules blocks. -/
theorem decide_startNow_iff (governor : ResourceGovernor) {cpuPct memPct : ℚ}
    {runningJobs queuedJobs : Int} :
    (governor.decide cpuPct memPct runningJobs queuedJobs).decision =
        .startNow ↔
      queuedJobs < governor.policy.maxQueueDepth ∧
        runningJobs < governor.policy.maxRunningJobs ∧
        cpuPct < governor.policy.cpuHighWatermarkPct ∧
        memPct < governor.policy.memHighWatermarkPct := by
  unfold decide
  constructor
  · intro h
    simp only at h
    split_ifs at h with hqueue hrunning hcpu hmem
    exact ⟨not_le.mp hqueue, not_le.mp hrunning, not_le.mp hcpu,
      not_le.mp hmem⟩
  · rintro ⟨hqueue, hrunning, hcpu, hmem⟩
    simp [not_le.mpr hqueue, not_le.mpr hrunning, not_le.mpr hcpu,
      not_le.mpr hmem]

end ResourceGovernor

end HeidiKernel
