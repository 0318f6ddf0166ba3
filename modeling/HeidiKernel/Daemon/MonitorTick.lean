import HeidiKernel.Daemon.RequestHandler
import HeidiKernel.Job.Timeout

namespace HeidiKernel.Daemon

open HeidiKernel.Transition
open HeidiKernel.Data
open HeidiKernel.JobRunner

/-! The monitor thread of the daemon and the runner whose limits it checks. The
daemon does not give its runner any work yet; in the runs here somebody may,
between two ticks of the monitor. -/

/-- `ResourceGovernor::decide`, on the policy as the daemon stores it. -/
def GovernorPolicy.decide (policy : GovernorPolicy) (cpuPct memPct : Double)
    (runningJobs queuedJobs : Int32) : GovernorResult :=
  if policy.maxQueueDepth ≤ queuedJobs then
    ⟨.rejectQueueFull, .queueFull, policy.cooldownMs⟩
  else if policy.maxRunningJobs ≤ runningJobs then
    ⟨.holdQueue, .runningLimit, policy.minStartGapMs⟩
  else if policy.cpuHighWatermarkPct.le cpuPct then
    ⟨.holdQueue, .cpuHigh, policy.cooldownMs⟩
  else if policy.memHighWatermarkPct.le memPct then
    ⟨.holdQueue, .memHigh, policy.cooldownMs⟩
  else
    ⟨.startNow, .none, 0⟩

namespace State

def toStart (d : State) : Int32 :=
  min 5 (min d.queuedJobs (d.policy.maxRunningJobs - d.runningJobs))

def dequeueJobs : Nat → State → State
  | 0, d => d
  | n + 1, d =>
      dequeueJobs n
        { d with
          queuedJobs := d.queuedJobs - 1
          runningJobs := d.runningJobs + 1 }

/-- The bookkeeping of the starts, and how many there were. -/
def startJobs (decision : GovernorDecision) (d : State) : Nat × State :=
  if decision = .startNow ∧ 0 < d.queuedJobs then
    ((UInt64.ofInt d.toStart.toInt).toNat,
      d.dequeueJobs d.toStart.toInt.toNat)
  else
    (0, d)

end State

structure Monitored where
  daemon : State := {}
  runner : JobRunner := .create 10

/-- A tick of the monitor: what the steady clock shows and the answers to the
calls made for each job. -/
structure MonitorTick where
  nowMs : UInt64
  scan : String → ScanAnswers

/-- The calls of `check_job_limits`, and what they lead to. -/
inductive MonitorEvent
  | limitsChecked (nowMs : UInt64) (maxJobsToCheck : Nat)
  | job (event : Event)
  deriving DecidableEq

def checkJobLimits (scan : String → ScanAnswers) (runner : JobRunner)
    (nowMs : UInt64) (maxJobsToCheck : Nat := 10) :
    Traced MonitorEvent JobRunner := do
  Traced.log (.limitsChecked nowMs maxJobsToCheck)
  (runner.checkJobLimits nowMs maxJobsToCheck scan).relabel .job

def Monitored.handleMonitorTick (t : MonitorTick) (m : Monitored) :
    Traced MonitorEvent Monitored := do
  let metrics := m.daemon.latestMetrics
  let result := m.daemon.policy.decide metrics.cpuUsagePercent
    (usedPct metrics.mem) m.daemon.runningJobs m.daemon.queuedJobs
  let (started, daemon) := State.startJobs result.decision
    { m.daemon with
      blockedReason := result.reason
      retryAfterMs := result.retryAfterMs }
  -- The only argument of the call is taken for the time.
  let runner ← checkJobLimits t.scan m.runner 10
  pure {
    daemon := { daemon with
      lastTickDiagnostics := {
        lastDecision := result.decision
        lastBlockReason := result.reason
        lastRetryAfterMs := result.retryAfterMs
        lastTickNowMs := t.nowMs
        lastTickRunning := daemon.runningJobs.toInt
        lastTickQueued := daemon.queuedJobs.toInt }
      jobsStartedThisTick := started
      jobsScannedThisTick := runner.jobsScannedThisTick }
    runner }

inductive MonitorCall
  | runner (op : Op)
  | tick (t : MonitorTick)

def Monitored.apply (m : Monitored) :
    MonitorCall → Traced MonitorEvent Monitored
  | .runner op => do
      let runner ← (m.runner.apply op).relabel .job
      pure { m with runner }
  | .tick t => m.handleMonitorTick t

def monitorMachine : Machine Monitored MonitorCall MonitorEvent where
  step := Monitored.apply

namespace Monitored

/-- The limits are checked at the time of the tick, with exact timeouts. -/
def ChecksExactly (t : MonitorTick) (m : Monitored) : Prop :=
  ∀ nowMs k, .limitsChecked nowMs k ∈ (m.handleMonitorTick t).events →
    nowMs = t.nowMs ∧ TimesOutExactly t.nowMs k t.scan m.runner
      (m.handleMonitorTick t).value.runner

def TimeoutsExact (m : Monitored) : MonitorCall → Prop
  | .runner (.tick t) =>
      TimesOutExactly t.nowMs t.maxLimitScansPerTick t.scan
        (m.runner.startPhase t).value (m.runner.tick t).value
  | .tick t => m.ChecksExactly t
  | .runner (.submit ..) | .runner (.cancel ..) => True

/-- The ticks of the runner are not behind the jobs they scan, and those of the
monitor moreover come ten milliseconds after the epoch of their clock. -/
def ClockFits (m : Monitored) : MonitorCall → Prop
  | .runner (.tick t) => m.runner.TickNotBehind t
  | .tick t => t.nowMs = 10 ∧ m.runner.ClockNotBehind t.nowMs 10 t.scan
  | .runner (.submit ..) | .runner (.cancel ..) => True

theorem runner_handleMonitorTick (t : MonitorTick) (m : Monitored) :
    (m.handleMonitorTick t).value.runner =
      (m.runner.checkJobLimits 10 10 t.scan).value := rfl

theorem limitsChecked_mem_iff (t : MonitorTick) (m : Monitored)
    {nowMs : UInt64} {k : Nat} :
    .limitsChecked nowMs k ∈ (m.handleMonitorTick t).events ↔
      nowMs = 10 ∧ k = 10 := by
  simp [handleMonitorTick, checkJobLimits]

theorem checksExactly_iff (t : MonitorTick) {m : Monitored}
    (hids : (m.runner.jobs.map Job.id).Nodup) :
    m.ChecksExactly t ↔
      t.nowMs = 10 ∧ m.runner.ClockNotBehind t.nowMs 10 t.scan := by
  have hcheck := timesOutExactly_checkJobLimits_iff hids 10 10 t.scan
  rw [← runner_handleMonitorTick t m] at hcheck
  simp only [ChecksExactly, limitsChecked_mem_iff]
  constructor
  · intro h
    obtain ⟨htime, hexact⟩ := h 10 10 ⟨rfl, rfl⟩
    rw [← htime] at hexact ⊢
    exact ⟨rfl, hcheck.mp hexact⟩
  · rintro ⟨htime, hclock⟩ nowMs k ⟨rfl, rfl⟩
    rw [htime] at hclock ⊢
    exact ⟨rfl, hcheck.mpr hclock⟩

theorem runner_wellFormed_apply {m : Monitored} (h : m.runner.WellFormed)
    (call : MonitorCall) : (m.apply call).value.runner.WellFormed := by
  cases call with
  | runner op => exact h.apply_wellFormed op
  | tick t => exact h.checkJobLimits_wellFormed 10 10 t.scan

theorem timeoutsExact_step_iff {m : Monitored} (h : m.runner.WellFormed)
    (call : MonitorCall) : m.TimeoutsExact call ↔ m.ClockFits call := by
  cases call with
  | tick t => exact checksExactly_iff t h.ids_nodup
  | runner op =>
      cases op with
      | submit command limits now layout => exact Iff.rfl
      | cancel id answers => exact Iff.rfl
      | tick t => exact h.timesOutExactly_tick_iff t

/-- In a run the jobs that are scanned and not reaped time out exactly when they
are out of time, and the monitor checks at its own time, if and only if no
difference wraps around and the monitor ticks at the time it passes on. -/
theorem timeoutsExact_iff (daemon : State) (maxConcurrentJobs : Nat)
    (calls : List MonitorCall) :
    monitorMachine.Along TimeoutsExact ⟨daemon, .create maxConcurrentJobs⟩
        calls ↔
      monitorMachine.Along ClockFits ⟨daemon, .create maxConcurrentJobs⟩
        calls :=
  Machine.along_congr (I := fun m : Monitored => m.runner.WellFormed)
    (C := fun _ => True)
    (fun _ call h _ => runner_wellFormed_apply h call)
    (fun _ call h _ => timeoutsExact_step_iff h call)
    (create_wellFormed maxConcurrentJobs) (fun _ _ => trivial)

/-- A job that starts at one second, and a tick one millisecond earlier. -/
def earlierTick : List MonitorCall :=
  [.runner plainSubmit, .runner (.tick plainTick),
    .runner (.tick { plainTick with nowMs := 999 })]

def monitorTick : MonitorTick where
  nowMs := 1000
  scan := fun _ => {}

theorem timeouts_inexact :
    ¬monitorMachine.Along TimeoutsExact {} earlierTick ∧
      ¬monitorMachine.Along TimeoutsExact {} [.tick monitorTick] := by
  constructor
  · intro h
    have hexact : TimesOutExactly 999 10 (fun _ => {})
        ((runJobs 10 [plainSubmit, .tick plainTick]).value.startPhase
          { plainTick with nowMs := 999 }).value
        ((runJobs 10 [plainSubmit, .tick plainTick]).value.tick
          { plainTick with nowMs := 999 }).value :=
      h.2.2.1
    revert hexact
    decide +kernel
  · intro h
    have htime := (h.1 10 10 ((limitsChecked_mem_iff _ _).mpr ⟨rfl, rfl⟩)).1
    exact absurd htime (by decide)

end Monitored

end HeidiKernel.Daemon
