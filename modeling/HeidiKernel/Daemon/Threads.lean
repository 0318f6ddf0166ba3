import HeidiKernel.Daemon.MonitorTick

namespace HeidiKernel.Daemon

open HeidiKernel.Transition
open HeidiKernel.Data
open HeidiKernel.JobRunner
open HeidiKernel.Metrics (MetricsHistory)

/-! The daemon as a whole: the sampler, the monitor and the server, each of
which goes from one lock to the next while the others run. -/

/-- A request that waits for the lock of the governor, with what it has read
by then, or for its reply to be written. -/
inductive Pending
  | status (metrics : SystemMetrics)
  | update (newPolicy : GovernorPolicy)
  | policy
  | diagnostics
  | reply (response : Bytes)

/-- What brings the daemon down: a request its handler does not survive, the
signal for a reply that nobody is there to read, and a file operation of
`append` that throws. -/
inductive Downfall
  | handler (crash : Crash)
  | brokenPipe
  | append
  deriving DecidableEq, Repr

structure Threads where
  daemon : State := {}
  runner : JobRunner := .create 10
  history : MetricsHistory
  sampler : Option SystemMetrics := none
  monitor : Option (UInt64 × SystemMetrics) := none
  server : Option (Bytes × Pending) := none
  crash : Option Downfall := none

/-- The steps of the threads. A `write` whose client has hung up is a
`brokenPipe`; an `append` may throw, and then leaves some directory. -/
inductive ThreadMove
  | publish (metrics : SystemMetrics)
  | append
  | appendThrows (dir : Directory Bytes UInt8)
  | wake (nowMs : UInt64)
  | decide (scan : String → ScanAnswers)
  | receive (request : Bytes)
  | answer
  | write
  | brokenPipe

inductive ThreadEvent
  | published (metrics : SystemMetrics)
  | appended (metrics : SystemMetrics)
  | ticked (nowMs : UInt64) (metrics : SystemMetrics) (result : GovernorResult)
  | answered (request reply : Bytes)
  | wrote (request reply : Bytes)
  | crashed (request : Bytes) (crash : Crash)

namespace Threads

def started (history : MetricsHistory) : Threads := { history }

def reply (request response : Bytes) (s : Threads) :
    Traced ThreadEvent Threads := do
  Traced.log (.answered request response)
  pure { s with server := some (request, .reply response) }

/-- What the handler does before it takes the lock of the governor. An update
reads the policy there. -/
def receive (request : Bytes) (s : Threads) : Traced ThreadEvent Threads :=
  if request = bytes "ping" then
    s.reply request (bytes "pong\n")
  else if request = bytes "status" then
    pure { s with server := some (request, .status s.daemon.latestMetrics) }
  else if updateCommand <+: request then
    let body := request.drop updateCommand.length
    match (commaTokens body).foldlM assignToken s.daemon.policy with
    | .ok newPolicy =>
        pure { s with server := some (request, .update newPolicy) }
    | .error crash => do
        Traced.log (.crashed request crash)
        pure { s with crash := some (.handler crash) }
  else if request = bytes "governor/policy" then
    pure { s with server := some (request, .policy) }
  else if request = bytes "governor/diagnostics" then
    pure { s with server := some (request, .diagnostics) }
  else
    s.reply request (bytes "error\n")

/-- What it does under the lock. -/
def answer (request : Bytes) (pending : Pending) (s : Threads) :
    Traced ThreadEvent Threads :=
  match pending with
  | .status metrics =>
      s.reply request { s.daemon with latestMetrics := metrics }.printStatus
  | .update newPolicy =>
      let (result, policy) := s.daemon.policy.validateAndUpdate newPolicy
      { s with daemon := { s.daemon with policy } }.reply request
        (if result.success then
          printPolicy "policy_updated" result.effectivePolicy
        else
          printErrors result.errors)
  | .policy =>
      s.reply request (printPolicy "governor/policy" s.daemon.policy)
  | .diagnostics => s.reply request s.daemon.printDiagnostics
  | .reply _ => pure s

/-- The tick of the monitor, on the metrics it has copied. -/
def decide (nowMs : UInt64) (metrics : SystemMetrics)
    (scan : String → ScanAnswers) (s : Threads) :
    Traced ThreadEvent Threads := do
  let ticked := (Monitored.handleMonitorTick ⟨nowMs, scan⟩
    ⟨{ s.daemon with latestMetrics := metrics }, s.runner⟩).value
  let diag := ticked.daemon.lastTickDiagnostics
  Traced.log (.ticked nowMs metrics
    ⟨diag.lastDecision, diag.lastBlockReason, diag.lastRetryAfterMs⟩)
  pure { s with
    daemon := { ticked.daemon with latestMetrics := s.daemon.latestMetrics }
    runner := ticked.runner
    monitor := none }

def publish (metrics : SystemMetrics) (s : Threads) :
    Traced ThreadEvent Threads := do
  Traced.log (.published metrics)
  pure { s with
    daemon := { s.daemon with latestMetrics := metrics }
    sampler := some metrics }

def append (metrics : SystemMetrics) (s : Threads) :
    Traced ThreadEvent Threads := do
  Traced.log (.appended metrics)
  pure { s with history := s.history.append metrics, sampler := none }

def write (request response : Bytes) (s : Threads) :
    Traced ThreadEvent Threads := do
  Traced.log (.wrote request response)
  pure { s with server := none }

/-- A thread that is not where the move starts does nothing, and after a crash
there are no threads. -/
def step (s : Threads) (move : ThreadMove) : Traced ThreadEvent Threads :=
  if s.crash.isSome then
    pure s
  else
    match move with
    | .publish metrics =>
        if s.sampler.isNone then s.publish metrics else pure s
    | .append =>
        match s.sampler with
        | some metrics => s.append metrics
        | none => pure s
    | .appendThrows dir =>
        if s.sampler.isSome then
          pure { s with
            history := { s.history with dir }
            crash := some .append }
        else
          pure s
    | .wake nowMs =>
        if s.monitor.isNone then
          pure { s with monitor := some (nowMs, s.daemon.latestMetrics) }
        else
          pure s
    | .decide scan =>
        match s.monitor with
        | some (nowMs, metrics) => s.decide nowMs metrics scan
        | none => pure s
    | .receive request =>
        if s.server.isNone then s.receive request else pure s
    | .answer =>
        match s.server with
        | some (request, pending) => s.answer request pending
        | none => pure s
    | .write =>
        match s.server with
        | some (request, .reply response) => s.write request response
        | _ => pure s
    | .brokenPipe =>
        match s.server with
        | some (_, .reply _) => pure { s with crash := some .brokenPipe }
        | _ => pure s

/-- The ways a step can go. -/
inductive Stepped (s : Threads) :
    ThreadMove → Traced ThreadEvent Threads → Prop
  | idle {move : ThreadMove} : Stepped s move (pure s)
  | published (metrics : SystemMetrics) (hsampler : s.sampler = none) :
      Stepped s (.publish metrics) (s.publish metrics)
  | appended {metrics : SystemMetrics} (hsampler : s.sampler = some metrics) :
      Stepped s .append (s.append metrics)
  | threw (dir : Directory Bytes UInt8) :
      Stepped s (.appendThrows dir)
        (pure { s with
          history := { s.history with dir }
          crash := some .append })
  | woken (nowMs : UInt64) :
      Stepped s (.wake nowMs)
        (pure { s with monitor := some (nowMs, s.daemon.latestMetrics) })
  | decided {nowMs : UInt64} {metrics : SystemMetrics}
      (scan : String → ScanAnswers)
      (hmonitor : s.monitor = some (nowMs, metrics)) :
      Stepped s (.decide scan) (s.decide nowMs metrics scan)
  | received (request : Bytes) (hserver : s.server = none) :
      Stepped s (.receive request) (s.receive request)
  | answered {request : Bytes} {pending : Pending}
      (hserver : s.server = some (request, pending)) :
      Stepped s .answer (s.answer request pending)
  | wrote {request response : Bytes}
      (hserver : s.server = some (request, .reply response)) :
      Stepped s .write (s.write request response)
  | hungUp : Stepped s .brokenPipe (pure { s with crash := some .brokenPipe })

theorem stepped (s : Threads) (move : ThreadMove) :
    s.Stepped move (s.step move) := by
  unfold step
  split
  · exact .idle
  · cases move with
    | publish metrics =>
        dsimp only
        split
        case isTrue hfree =>
          exact .published metrics (Option.isNone_iff_eq_none.mp hfree)
        case isFalse => exact .idle
    | append =>
        dsimp only
        split
        case h_1 hsampler => exact .appended hsampler
        case h_2 => exact .idle
    | appendThrows dir =>
        dsimp only
        split
        · exact .threw dir
        · exact .idle
    | wake nowMs =>
        dsimp only
        split
        · exact .woken nowMs
        · exact .idle
    | decide scan =>
        dsimp only
        split
        case h_1 hmonitor => exact .decided scan hmonitor
        case h_2 => exact .idle
    | receive request =>
        dsimp only
        split
        case isTrue hfree =>
          exact .received request (Option.isNone_iff_eq_none.mp hfree)
        case isFalse => exact .idle
    | answer =>
        dsimp only
        split
        case h_1 hserver => exact .answered hserver
        case h_2 => exact .idle
    | write =>
        dsimp only
        split
        case h_1 hserver => exact .wrote hserver
        case h_2 => exact .idle
    | brokenPipe =>
        dsimp only
        split
        · exact .hungUp
        · exact .idle

theorem step_of_crashed {s : Threads} (h : s.crash.isSome)
    (move : ThreadMove) : s.step move = pure s := if_pos h

end Threads

def threadMachine : Machine Threads ThreadMove ThreadEvent where
  step := Threads.step

/-! The commands that wait for the lock. -/

theorem handleRequest_status (d : State) :
    d.handleRequest (bytes "status") = .ok (d.printStatus, d) := by
  unfold State.handleRequest
  rw [if_neg (by decide +kernel), if_pos rfl]
  rfl

theorem handleRequest_policy (d : State) :
    d.handleRequest (bytes "governor/policy") =
      .ok (printPolicy "governor/policy" d.policy, d) := by
  unfold State.handleRequest
  rw [if_neg (by decide +kernel), if_neg (by decide +kernel),
    if_neg (by decide +kernel), if_pos rfl]
  rfl

theorem handleRequest_diagnostics (d : State) :
    d.handleRequest (bytes "governor/diagnostics") =
      .ok (d.printDiagnostics, d) := by
  unfold State.handleRequest
  rw [if_neg (by decide +kernel), if_neg (by decide +kernel),
    if_neg (by decide +kernel), if_neg (by decide +kernel), if_pos rfl]
  rfl

/-! What the daemon shows, read off what has happened: every event has its
effect at once. -/

def bodyOf? (request : Bytes) : Option Bytes :=
  if updateCommand <+: request then
    some (request.drop updateCommand.length)
  else none

def State.after (d : State) : ThreadEvent → State
  | .published metrics => { d with latestMetrics := metrics }
  | .ticked nowMs _ result =>
      { d with
        blockedReason := result.reason
        retryAfterMs := result.retryAfterMs
        lastTickDiagnostics := {
          lastDecision := result.decision
          lastBlockReason := result.reason
          lastRetryAfterMs := result.retryAfterMs
          lastTickNowMs := nowMs } }
  | .answered request _ =>
      { d with policy := (bodyOf? request).elim d.policy (applyUpdate d.policy) }
  | .appended _ | .wrote .. | .crashed .. => d

/-- A request changes the policy only. -/
theorem handleRequest_after {d next : State} {request response : Bytes}
    (h : d.handleRequest request = .ok (response, next)) :
    next = d.after (.answered request response) := by
  rcases em (updateCommand <+: request) with hupdate | hother
  · have hbody : bodyOf? request =
        some (request.drop updateCommand.length) := if_pos hupdate
    obtain ⟨body, rfl⟩ := hupdate
    rw [handleRequest_update] at h
    obtain ⟨⟨reply, policy⟩, hupdated, hnext⟩ := bind_eq_ok.mp h
    obtain ⟨rfl, rfl⟩ := Prod.mk.inj (Except.ok.inj hnext)
    rw [List.drop_left] at hbody
    simp only [State.after, hbody, Option.elim_some, applyUpdate, hupdated]
  · have hbody : bodyOf? request = none := if_neg hother
    have hsame : State.after d (.answered request response) = d := by
      simp only [State.after, hbody, Option.elim_none]
    rw [hsame]
    unfold State.handleRequest at h
    rw [if_neg hother] at h
    split_ifs at h
    all_goals exact (Prod.mk.inj (Except.ok.inj h)).2.symm

def shown (history : List ThreadEvent) : State :=
  history.foldl State.after {}

/-- The bodies of the updates that were answered. -/
def answeredBody? : ThreadEvent → Option Bytes
  | .answered request _ => bodyOf? request
  | _ => none

def published? : ThreadEvent → Option SystemMetrics
  | .published metrics => some metrics
  | _ => none

def appended? : ThreadEvent → Option SystemMetrics
  | .appended metrics => some metrics
  | _ => none

/-- The request and the reply of an answer. -/
def answer? : ThreadEvent → Option (Bytes × Bytes)
  | .answered request response => some (request, response)
  | _ => none

def wrote? : ThreadEvent → Option (Bytes × Bytes)
  | .wrote request response => some (request, response)
  | _ => none

/-- The reply that is yet to be written. -/
def Threads.unwritten (s : Threads) : List (Bytes × Bytes) :=
  match s.server with
  | some (request, .reply response) => [(request, response)]
  | _ => []

/-- What a tick leaves in the diagnostics of a daemon without jobs. -/
def diagnostics? : ThreadEvent → Option TickDiagnostics
  | .ticked nowMs _ result => some {
      lastDecision := result.decision
      lastBlockReason := result.reason
      lastRetryAfterMs := result.retryAfterMs
      lastTickNowMs := nowMs }
  | _ => none

theorem shown_concat (history : List ThreadEvent) (event : ThreadEvent) :
    shown (history ++ [event]) = (shown history).after event :=
  List.foldl_concat ..

/-- The policy is that of the updates, in the order of their answers. -/
theorem policy_shown (history : List ThreadEvent) :
    (shown history).policy =
      policyAfter (history.filterMap answeredBody?) := by
  induction history using List.reverseRecOn with
  | nil => rfl
  | append_singleton history event ih =>
      rw [shown_concat, List.filterMap_append, policyAfter, List.foldl_append]
      rw [policyAfter] at ih
      rw [← ih]
      cases event with
      | answered request reply =>
          cases hbody : bodyOf? request with
          | none => simp [State.after, answeredBody?, hbody]
          | some body => simp [State.after, answeredBody?, hbody]
      | _ => rfl

/-- The diagnostics are those of the last tick. -/
theorem diagnostics_shown (history : List ThreadEvent) :
    (shown history).lastTickDiagnostics =
      (history.filterMap diagnostics?).getLast?.getD {} := by
  induction history using List.reverseRecOn with
  | nil => rfl
  | append_singleton history event ih =>
      rw [shown_concat, List.filterMap_append]
      cases event with
      | ticked nowMs metrics result => simp [State.after, diagnostics?]
      | _ => simpa [State.after, diagnostics?] using ih

/-- The status tells what the diagnostics tell. -/
theorem status_shown (history : List ThreadEvent) :
    (shown history).blockedReason =
        (shown history).lastTickDiagnostics.lastBlockReason ∧
      (shown history).retryAfterMs =
        (shown history).lastTickDiagnostics.lastRetryAfterMs := by
  induction history using List.reverseRecOn with
  | nil => exact ⟨rfl, rfl⟩
  | append_singleton history event ih =>
      rw [shown_concat]
      cases event with
      | ticked nowMs metrics result => exact ⟨rfl, rfl⟩
      | _ => exact ih

theorem policy_shown_valid (history : List ThreadEvent) :
    (shown history).policy.Valid := by
  rw [policy_shown]
  exact policyAfter_valid _

/-- There is no job, so there is none to count or to scan. -/
structure State.Idle (d : State) : Prop where
  running : d.runningJobs = 0
  queued : d.queuedJobs = 0
  rejected : d.rejectedJobs = 0
  started : d.jobsStartedThisTick = 0
  scanned : d.jobsScannedThisTick = 0

theorem idle_shown (history : List ThreadEvent) : (shown history).Idle := by
  induction history using List.reverseRecOn with
  | nil => exact ⟨rfl, rfl, rfl, rfl, rfl⟩
  | append_singleton history event ih =>
      rw [shown_concat]
      cases event with
      | _ => exact ⟨ih.running, ih.queued, ih.rejected, ih.started, ih.scanned⟩

/-- A sample that was the latest at some time. -/
def Published (history : List ThreadEvent) (metrics : SystemMetrics) : Prop :=
  metrics = {} ∨ .published metrics ∈ history

/-- An event is what the state shown before it makes of a published sample. -/
def Faithful (history : List ThreadEvent) : ThreadEvent → Prop
  | .answered request response =>
      ∃ metrics, Published history metrics ∧
        (request ≠ bytes "status" → metrics = (shown history).latestMetrics) ∧
        { shown history with latestMetrics := metrics }.reply request =
          .ok response
  | .ticked _ metrics result =>
      Published history metrics ∧
        result = (shown history).policy.decide metrics.cpuUsagePercent
          (usedPct metrics.mem) 0 0
  | .crashed request crash => (shown history).reply request = .error crash
  | .published _ | .appended _ | .wrote .. => True

/-- What a request that waits has done so far. Nobody else changes the policy,
so an update still starts from the one in force. -/
def Begun (history : List ThreadEvent) (request : Bytes) : Pending → Prop
  | .status metrics =>
      request = bytes "status" ∧ Published history metrics
  | .update newPolicy => ∃ body, request = updateCommand ++ body ∧
      (commaTokens body).foldlM assignToken (shown history).policy =
        .ok newPolicy
  | .policy => request = bytes "governor/policy"
  | .diagnostics => request = bytes "governor/diagnostics"
  | .reply _ => True

structure Shows (s : Threads) (history : List ThreadEvent) : Prop where
  daemon : s.daemon = shown history
  runner : s.runner = .create 10
  samples : history.filterMap published? =
    history.filterMap appended? ++ s.sampler.toList
  replies : history.filterMap answer? =
    history.filterMap wrote? ++ s.unwritten
  monitor : ∀ nowMs metrics, s.monitor = some (nowMs, metrics) →
    Published history metrics
  server : ∀ request pending, s.server = some (request, pending) →
    Begun history request pending
  faithful : Recorded Faithful history

theorem Published.concat {history : List ThreadEvent} {metrics : SystemMetrics}
    (h : Published history metrics) (event : ThreadEvent) :
    Published (history ++ [event]) metrics :=
  h.imp_right (List.mem_append_left _)

theorem published_latest (history : List ThreadEvent) :
    Published history (shown history).latestMetrics := by
  induction history using List.reverseRecOn with
  | nil => exact .inl rfl
  | append_singleton history event ih =>
      rw [shown_concat]
      cases event with
      | published metrics => exact .inr (by simp [State.after])
      | _ => exact ih.concat _

/-- An event that is no answer leaves a request where it is. -/
theorem Begun.concat {history : List ThreadEvent} {request : Bytes}
    {pending : Pending} (h : Begun history request pending)
    {event : ThreadEvent} (hevent : answeredBody? event = none) :
    Begun (history ++ [event]) request pending := by
  have hpolicy : (shown (history ++ [event])).policy =
      (shown history).policy := by
    rw [policy_shown, policy_shown, List.filterMap_append]
    simp [hevent]
  cases pending with
  | status metrics => exact ⟨h.1, h.2.concat _⟩
  | update newPolicy =>
      unfold Begun
      rwa [hpolicy]
  | policy => exact h
  | diagnostics => exact h
  | reply response => trivial

namespace Shows

variable {s : Threads} {history : List ThreadEvent}

theorem init (log : MetricsHistory) : Shows (Threads.started log) [] where
  daemon := rfl
  runner := rfl
  samples := rfl
  replies := rfl
  monitor _ _ h := by cases h
  server _ _ h := by cases h
  faithful := .nil

theorem samples_concat (h : Shows s history) {event : ThreadEvent}
    (hpublished : published? event = none)
    (happended : appended? event = none) :
    (history ++ [event]).filterMap published? =
      (history ++ [event]).filterMap appended? ++ s.sampler.toList := by
  simp [List.filterMap_append, h.samples, hpublished, happended]

theorem replies_concat (h : Shows s history) {event : ThreadEvent}
    (hanswer : answer? event = none) (hwrote : wrote? event = none) :
    (history ++ [event]).filterMap answer? =
      (history ++ [event]).filterMap wrote? ++ s.unwritten := by
  simp [List.filterMap_append, h.replies, hanswer, hwrote]

theorem publish (h : Shows s history) (hsampler : s.sampler = none)
    (metrics : SystemMetrics) :
    Shows { s with
      daemon := { s.daemon with latestMetrics := metrics }
      sampler := some metrics } (history ++ [.published metrics]) where
  daemon := by
    rw [shown_concat, ← h.daemon]
    rfl
  runner := h.runner
  samples := by
    rw [List.filterMap_append, List.filterMap_append, h.samples, hsampler]
    simp [published?, appended?]
  replies := h.replies_concat rfl rfl
  monitor nowMs copied hmonitor := (h.monitor nowMs copied hmonitor).concat _
  server request pending hserver := (h.server request pending hserver).concat rfl
  faithful := h.faithful.concat trivial

theorem append {metrics : SystemMetrics} (h : Shows s history)
    (hsampler : s.sampler = some metrics) :
    Shows { s with history := s.history.append metrics, sampler := none }
      (history ++ [.appended metrics]) where
  daemon := by
    rw [shown_concat, ← h.daemon]
    rfl
  runner := h.runner
  samples := by
    rw [List.filterMap_append, List.filterMap_append, h.samples, hsampler]
    simp [published?, appended?]
  replies := h.replies_concat rfl rfl
  monitor nowMs copied hmonitor := (h.monitor nowMs copied hmonitor).concat _
  server request pending hserver := (h.server request pending hserver).concat rfl
  faithful := h.faithful.concat trivial

/-- After the end nobody looks at the history. -/
theorem crashed (h : Shows s history) (log : MetricsHistory)
    (crash : Option Downfall) :
    Shows { s with history := log, crash } (history ++ []) := by
  rw [List.append_nil]
  exact ⟨h.daemon, h.runner, h.samples, h.replies, h.monitor, h.server,
    h.faithful⟩

theorem wake (h : Shows s history) (nowMs : UInt64) :
    Shows { s with monitor := some (nowMs, s.daemon.latestMetrics) }
      history :=
  { h with
    monitor := by
      rintro _ _ ⟨⟩
      rw [h.daemon]
      exact published_latest history }

theorem startJobs_idle {d : State} (h : d.queuedJobs = 0)
    (decision : GovernorDecision) : State.startJobs decision d = (0, d) := by
  rw [State.startJobs, h]
  exact if_neg fun hqueued => absurd hqueued.2 (by decide)

theorem handleMonitorTick_idle {d : State} (h : d.Idle) (t : MonitorTick) :
    let metrics := d.latestMetrics
    (Monitored.handleMonitorTick t ⟨d, .create 10⟩).value =
      ⟨d.after (.ticked t.nowMs metrics (d.policy.decide
        metrics.cpuUsagePercent (usedPct metrics.mem) 0 0)), .create 10⟩ := by
  obtain ⟨latest, policy, running, queued, rejected, blocked, retry, diag,
    started, scanned⟩ := d
  obtain ⟨hrunning, hqueued, hrejected, hstarted, hscanned⟩ := h
  dsimp only at hrunning hqueued hrejected hstarted hscanned
  subst hrunning hqueued hrejected hstarted hscanned
  have hstart : ∀ (reason : BlockReason) (retryAfterMs : UInt64)
      (decision : GovernorDecision),
      let noted : State := {
        latestMetrics := latest, policy, blockedReason := reason, retryAfterMs
        lastTickDiagnostics := diag }
      State.startJobs decision noted = (0, noted) :=
    fun _ _ decision => startJobs_idle rfl decision
  simp only [Monitored.handleMonitorTick, hstart]
  rfl

theorem decide_eq (h : Shows s history) (nowMs : UInt64)
    (metrics : SystemMetrics) (scan : String → ScanAnswers) :
    let result := s.daemon.policy.decide metrics.cpuUsagePercent
      (usedPct metrics.mem) 0 0
    s.decide nowMs metrics scan =
      ⟨{ s with
          daemon := s.daemon.after (.ticked nowMs metrics result)
          monitor := none },
        [.ticked nowMs metrics result]⟩ := by
  intro result
  have hidle : State.Idle { s.daemon with latestMetrics := metrics } := by
    have hshown := idle_shown history
    rw [← h.daemon] at hshown
    exact ⟨hshown.running, hshown.queued, hshown.rejected, hshown.started,
      hshown.scanned⟩
  have htick := handleMonitorTick_idle hidle ⟨nowMs, scan⟩
  simp only [Threads.decide, h.runner, htick]
  rfl

theorem decide (h : Shows s history) {nowMs : UInt64} {metrics : SystemMetrics}
    (hmonitor : s.monitor = some (nowMs, metrics))
    (scan : String → ScanAnswers) :
    Shows (s.decide nowMs metrics scan).value
      (history ++ (s.decide nowMs metrics scan).events) := by
  rw [h.decide_eq nowMs metrics scan]
  exact {
    daemon := by rw [shown_concat, ← h.daemon]
    runner := h.runner
    samples := h.samples_concat rfl rfl
    replies := h.replies_concat rfl rfl
    monitor := by
      rintro _ _ ⟨⟩
    server := fun request pending hserver =>
      (h.server request pending hserver).concat rfl
    faithful := h.faithful.concat
      ⟨h.monitor nowMs metrics hmonitor, by rw [h.daemon]⟩ }

/-- An answer that the handler gives in the state shown, on some published
sample, and the policy it leaves. -/
theorem reply (h : Shows s history) (hunwritten : s.unwritten = [])
    {request response : Bytes} {metrics : SystemMetrics} {next : State}
    (hmetrics : Published history metrics)
    (hlatest : request ≠ bytes "status" →
      metrics = (shown history).latestMetrics)
    (hhandled : { shown history with latestMetrics := metrics }.handleRequest
      request = .ok (response, next)) :
    Shows { s with
      daemon := { s.daemon with policy := next.policy }
      server := some (request, .reply response) }
      (history ++ [.answered request response]) where
  daemon := by
    rw [shown_concat, ← h.daemon, handleRequest_after hhandled, ← h.daemon]
    rfl
  runner := h.runner
  samples := h.samples_concat rfl rfl
  replies := by
    rw [List.filterMap_append, List.filterMap_append, h.replies, hunwritten]
    simp [answer?, wrote?, Threads.unwritten]
  monitor nowMs copied hmonitor := (h.monitor nowMs copied hmonitor).concat _
  server := by
    rintro _ _ ⟨⟩
    trivial
  faithful := by
    apply h.faithful.concat
    refine ⟨metrics, hmetrics, hlatest, ?_⟩
    rw [State.reply, hhandled]
    rfl

theorem reply_silent (h : Shows s history) (hunwritten : s.unwritten = [])
    {request response : Bytes} {metrics : SystemMetrics} {next : State}
    (hmetrics : Published history metrics)
    (hlatest : request ≠ bytes "status" →
      metrics = (shown history).latestMetrics)
    (hhandled : { shown history with latestMetrics := metrics }.handleRequest
      request = .ok (response, next))
    (hsame : next.policy = (shown history).policy) :
    Shows (s.reply request response).value
      (history ++ (s.reply request response).events) := by
  have hreply := h.reply hunwritten hmetrics hlatest hhandled
  rw [hsame, ← h.daemon] at hreply
  exact hreply

theorem begin (h : Shows s history) (hserver : s.server = none)
    {request : Bytes} {pending : Pending}
    (hpending : ∀ response, pending ≠ .reply response)
    (hbegun : Begun history request pending) :
    Shows { s with server := some (request, pending) } (history ++ []) := by
  rw [List.append_nil]
  exact { h with
    replies := by
      rw [h.replies, Threads.unwritten, Threads.unwritten, hserver]
      cases pending with
      | reply response => exact absurd rfl (hpending response)
      | _ => rfl
    server := by
      rintro _ _ ⟨⟩
      exact hbegun }

theorem crash (h : Shows s history) {request : Bytes} {crash : Crash}
    (hreply : (shown history).reply request = .error crash) :
    Shows { s with crash := some (.handler crash) }
      (history ++ [.crashed request crash]) where
  daemon := by
    rw [shown_concat, ← h.daemon]
    rfl
  runner := h.runner
  samples := h.samples_concat rfl rfl
  replies := h.replies_concat rfl rfl
  monitor nowMs copied hmonitor := (h.monitor nowMs copied hmonitor).concat _
  server request pending hserver := (h.server request pending hserver).concat rfl
  faithful := h.faithful.concat hreply

theorem write (h : Shows s history) {request response : Bytes}
    (hserver : s.server = some (request, .reply response)) :
    Shows { s with server := none }
      (history ++ [.wrote request response]) where
  daemon := by
    rw [shown_concat, ← h.daemon]
    rfl
  runner := h.runner
  samples := h.samples_concat rfl rfl
  replies := by
    rw [List.filterMap_append, List.filterMap_append, h.replies]
    simp [answer?, wrote?, Threads.unwritten, hserver]
  monitor nowMs copied hmonitor := (h.monitor nowMs copied hmonitor).concat _
  server _ _ hnone := by cases hnone
  faithful := h.faithful.concat trivial

theorem receive (h : Shows s history) (hserver : s.server = none)
    (request : Bytes) :
    Shows (s.receive request).value
      (history ++ (s.receive request).events) := by
  have hunwritten : s.unwritten = [] := by rw [Threads.unwritten, hserver]
  unfold Threads.receive
  split_ifs with hping hstatus hupdate hpolicy hdiagnostics
  · subst hping
    exact h.reply_silent hunwritten (published_latest history) (fun _ => rfl)
      (if_pos rfl) rfl
  · apply h.begin hserver (by simp)
    exact ⟨hstatus, h.daemon ▸ published_latest history⟩
  · obtain ⟨body, rfl⟩ := hupdate
    cases hfold : (commaTokens body).foldlM assignToken s.daemon.policy with
    | ok newPolicy =>
        simp only [List.drop_left, hfold]
        apply h.begin hserver (by simp)
        exact ⟨body, rfl, h.daemon ▸ hfold⟩
    | error crash =>
        simp only [List.drop_left, hfold]
        apply h.crash
        rw [State.reply, handleRequest_update, updatePolicy, ← h.daemon, hfold]
        rfl
  · exact h.begin hserver (by simp) hpolicy
  · exact h.begin hserver (by simp) hdiagnostics
  · have hhandled : (shown history).handleRequest request =
        .ok (bytes "error\n", shown history) := by
      unfold State.handleRequest
      rw [if_neg hping, if_neg hstatus, if_neg hupdate, if_neg hpolicy,
        if_neg hdiagnostics]
      rfl
    exact h.reply_silent hunwritten (published_latest history) (fun _ => rfl)
      hhandled rfl

theorem answer (h : Shows s history) {request : Bytes} {pending : Pending}
    (hserver : s.server = some (request, pending)) :
    Shows (s.answer request pending).value
      (history ++ (s.answer request pending).events) := by
  have hbegun := h.server request pending hserver
  have hlatest := published_latest history
  cases pending with
  | status metrics =>
      obtain ⟨rfl, hmetrics⟩ := hbegun
      have hunwritten : s.unwritten = [] := by rw [Threads.unwritten, hserver]
      have hreply := h.reply_silent hunwritten hmetrics (absurd rfl)
        (handleRequest_status _) rfl
      rw [← h.daemon] at hreply
      exact hreply
  | update newPolicy =>
      obtain ⟨body, rfl, hfold⟩ := hbegun
      have hunwritten : s.unwritten = [] := by rw [Threads.unwritten, hserver]
      have hhandled := handleRequest_update (shown history) body
      rw [updatePolicy, hfold, ok_bind] at hhandled
      rcases em newPolicy.Valid with hvalid | hinvalid
      · rw [GovernorPolicy.validateAndUpdate_of_valid hvalid] at hhandled
        have hreply := h.reply hunwritten hlatest (fun _ => rfl) hhandled
        simp only [Threads.answer,
          GovernorPolicy.validateAndUpdate_of_valid hvalid]
        exact hreply
      · rw [GovernorPolicy.validateAndUpdate_of_not_valid hinvalid] at hhandled
        have hreply := h.reply hunwritten hlatest (fun _ => rfl) hhandled
        simp only [Threads.answer,
          GovernorPolicy.validateAndUpdate_of_not_valid hinvalid]
        rw [← h.daemon] at hreply
        exact hreply
  | policy =>
      obtain rfl : request = bytes "governor/policy" := hbegun
      have hunwritten : s.unwritten = [] := by rw [Threads.unwritten, hserver]
      have hreply := h.reply_silent hunwritten hlatest (fun _ => rfl)
        (handleRequest_policy _) rfl
      rw [← h.daemon] at hreply
      exact hreply
  | diagnostics =>
      obtain rfl : request = bytes "governor/diagnostics" := hbegun
      have hunwritten : s.unwritten = [] := by rw [Threads.unwritten, hserver]
      have hreply := h.reply_silent hunwritten hlatest (fun _ => rfl)
        (handleRequest_diagnostics _) rfl
      rw [← h.daemon] at hreply
      exact hreply
  | reply response =>
      rw [← List.append_nil history] at h
      exact h

theorem stepped (h : Shows s history) {move : ThreadMove}
    {next : Traced ThreadEvent Threads} (hstep : s.Stepped move next) :
    Shows next.value (history ++ next.events) := by
  have hidle : Shows s (history ++ []) := by rwa [List.append_nil]
  cases hstep with
  | idle => exact hidle
  | published metrics hsampler => exact h.publish hsampler metrics
  | appended hsampler => exact h.append hsampler
  | threw dir => exact h.crashed { s.history with dir } _
  | woken nowMs => exact hidle.wake nowMs
  | decided scan hmonitor => exact h.decide hmonitor scan
  | received request hserver => exact h.receive hserver request
  | answered hserver => exact h.answer hserver
  | wrote hserver => exact h.write hserver
  | hungUp => exact h.crashed s.history _

theorem run (log : MetricsHistory) (moves : List ThreadMove) :
    Shows (threadMachine.run (.started log) moves).value
      (threadMachine.run (.started log) moves).events :=
  Machine.history_run (I := Shows)
    (fun s _ move h => h.stepped (s.stepped move)) (init log) moves

end Shows

/-! The results about every interleaving of the three threads. -/

/-- The daemon shows what it would if every event took place at once: the
policy is that of the updates in the order of their answers, and every answer is
the handler's in the state at that moment, but for the metrics of a status,
which may be of an earlier sample. The replies that are written are the answers,
in that order. -/
theorem threads_linearized (log : MetricsHistory) (moves : List ThreadMove) :
    let ran := threadMachine.run (.started log) moves
    ran.value.daemon = shown ran.events ∧
      ran.value.daemon.policy =
        policyAfter (ran.events.filterMap answeredBody?) ∧
      (∀ before request response after,
        ran.events = before ++ .answered request response :: after →
          ∃ metrics, Published before metrics ∧
            (request ≠ bytes "status" →
              metrics = (shown before).latestMetrics) ∧
            { shown before with latestMetrics := metrics }.reply request =
              .ok response) ∧
      ran.events.filterMap answer? =
        ran.events.filterMap wrote? ++ ran.value.unwritten := by
  intro ran
  have hshows := Shows.run log moves
  refine ⟨hshows.daemon, ?_, ?_, hshows.replies⟩
  · rw [hshows.daemon]
    exact policy_shown _
  · intro before request response after hsplit
    exact hshows.faithful before _ after hsplit

/-! The history on disk, as long as the daemon is up. Only the sampler touches
it. -/

/-- The files hold the last of the old samples and of those appended, the last
one among them. -/
structure Logs (old : List SystemMetrics) (log : MetricsHistory)
    (history : List ThreadEvent) : Prop where
  holds : log.Holds (old ++ history.filterMap appended?)
  newest : ∀ front metrics,
    history.filterMap appended? = front ++ [metrics] →
      Metrics.line metrics <:+ log.contents

namespace Logs

variable {old : List SystemMetrics} {log : MetricsHistory}
  {history : List ThreadEvent}

theorem quiet (h : Logs old log history) {events : List ThreadEvent}
    (hevents : events.filterMap appended? = []) :
    Logs old log (history ++ events) := by
  have hsame : (history ++ events).filterMap appended? =
      history.filterMap appended? := by
    rw [List.filterMap_append, hevents, List.append_nil]
  exact ⟨hsame ▸ h.holds, hsame ▸ h.newest⟩

theorem append (h : Logs old log history) (metrics : SystemMetrics) :
    Logs old (log.append metrics) (history ++ [.appended metrics]) := by
  have hgrown : (history ++ [ThreadEvent.appended metrics]).filterMap appended? =
      history.filterMap appended? ++ [metrics] := by
    rw [List.filterMap_append]
    rfl
  refine ⟨?_, ?_⟩
  · rw [hgrown, ← List.append_assoc]
    exact h.holds.append metrics
  · intro front last hlast
    rw [hgrown] at hlast
    obtain rfl : metrics = last := by simpa using (List.append_inj' hlast rfl).2
    obtain ⟨removed, rest, -, -, hafter⟩ :=
      MetricsHistory.contents_append h.holds.rotates metrics
    exact ⟨rest, hafter.symm⟩

end Logs

/-- What a step of another thread leaves alone. -/
structure Unlogged (s : Threads) (next : Traced ThreadEvent Threads) :
    Prop where
  history : next.value.history = s.history
  events : next.events.filterMap appended? = []

theorem unlogged_receive (s : Threads) (request : Bytes) :
    Unlogged s (s.receive request) := by
  unfold Threads.receive
  split_ifs
  · exact ⟨rfl, rfl⟩
  · exact ⟨rfl, rfl⟩
  · dsimp only
    cases (commaTokens (request.drop updateCommand.length)).foldlM assignToken
        s.daemon.policy with
    | ok newPolicy => exact ⟨rfl, rfl⟩
    | error crash => exact ⟨rfl, rfl⟩
  all_goals exact ⟨rfl, rfl⟩

theorem unlogged_answer (s : Threads) (request : Bytes) (pending : Pending) :
    Unlogged s (s.answer request pending) := by
  cases pending with
  | _ => exact ⟨rfl, rfl⟩

theorem Logs.stepped {old : List SystemMetrics} {s : Threads}
    {history : List ThreadEvent} (h : Logs old s.history history)
    {move : ThreadMove} {next : Traced ThreadEvent Threads}
    (hstep : s.Stepped move next) (hup : next.value.crash = none) :
    Logs old next.value.history (history ++ next.events) := by
  have hquiet : Unlogged s next →
      Logs old next.value.history (history ++ next.events) := by
    intro hunlogged
    rw [hunlogged.history]
    exact h.quiet hunlogged.events
  cases hstep with
  | appended hsampler => exact h.append _
  | threw dir => cases hup
  | hungUp => cases hup
  | received request hserver => exact hquiet (unlogged_receive s request)
  | answered hserver => exact hquiet (unlogged_answer s _ _)
  | decided scan hmonitor =>
      exact hquiet ⟨rfl, by simp [Threads.decide, appended?]⟩
  | idle | published | woken | wrote => exact hquiet ⟨rfl, rfl⟩

theorem logs_run {log : MetricsHistory} {old : List SystemMetrics}
    (h : log.Holds old) (moves : List ThreadMove) :
    (threadMachine.run (.started log) moves).value.crash = none →
      Logs old (threadMachine.run (.started log) moves).value.history
        (threadMachine.run (.started log) moves).events := by
  apply Machine.history_run (m := threadMachine)
    (I := fun s history => s.crash = none → Logs old s.history history)
  · intro s history move hlogs hup
    refine (hlogs ?_).stepped (s.stepped move) hup
    cases hcrash : s.crash with
    | none => rfl
    | some downfall =>
        have hstays : threadMachine.step s move = pure s :=
          s.step_of_crashed (by rw [hcrash]; rfl) move
        rw [hstays] at hup
        exact hcrash.symm.trans hup
  · intro _
    refine ⟨by rwa [List.filterMap_nil, List.append_nil], ?_⟩
    intro front metrics hnone
    simp at hnone

/-- As long as the daemon is up, the files of its history hold the lines of the
last samples in the order in which they were the latest, behind those of former
runs, except for the sample that is yet to be appended. -/
theorem published_on_disk {log : MetricsHistory} {old : List SystemMetrics}
    (h : log.Holds old) (moves : List ThreadMove) :
    let ran := threadMachine.run (.started log) moves
    ran.value.crash = none →
      ∃ kept, ran.events.filterMap published? =
          kept ++ ran.value.sampler.toList ∧
        ran.value.history.Holds (old ++ kept) ∧
        (∃ k, ran.value.history.contents =
          ((old ++ kept).drop k).flatMap Metrics.line) ∧
        ∀ front metrics, kept = front ++ [metrics] →
          Metrics.line metrics <:+ ran.value.history.contents := by
  intro ran hup
  have hlogs := logs_run h moves hup
  exact ⟨_, (Shows.run log moves).samples, hlogs.holds,
    hlogs.holds.contents_eq, hlogs.newest⟩

/-- A daemon samples twice on an empty state directory. -/
def twoSamples : List ThreadMove :=
  [.publish { timestamp := 1 }, .append, .publish { timestamp := 2 }]

theorem twoSamples_on_disk :
    let ran := threadMachine.run
      (.started (.afterAppends (bytes "/tmp") 100 2 [])) twoSamples
    ∃ kept, ran.events.filterMap published? =
        kept ++ ran.value.sampler.toList ∧
      ran.value.history.Holds ([] ++ kept) ∧
      (∃ k, ran.value.history.contents =
        (([] ++ kept).drop k).flatMap Metrics.line) ∧
      ∀ front metrics, kept = front ++ [metrics] →
        Metrics.line metrics <:+ ran.value.history.contents :=
  published_on_disk
    (MetricsHistory.created_holds (bytes "/tmp") 100 (by decide) (by decide))
    twoSamples rfl

/-- The decisions a valid policy leaves a daemon without jobs. -/
inductive IdleDecision (policy : GovernorPolicy) (metrics : SystemMetrics) :
    GovernorResult → Prop
  | start (hcpu : ¬policy.cpuHighWatermarkPct.le metrics.cpuUsagePercent)
      (hmem : ¬policy.memHighWatermarkPct.le (usedPct metrics.mem)) :
      IdleDecision policy metrics ⟨.startNow, .none, 0⟩
  | cpu (hcpu : policy.cpuHighWatermarkPct.le metrics.cpuUsagePercent) :
      IdleDecision policy metrics ⟨.holdQueue, .cpuHigh, policy.cooldownMs⟩
  | mem (hcpu : ¬policy.cpuHighWatermarkPct.le metrics.cpuUsagePercent)
      (hmem : policy.memHighWatermarkPct.le (usedPct metrics.mem)) :
      IdleDecision policy metrics ⟨.holdQueue, .memHigh, policy.cooldownMs⟩

theorem idleDecision_decide {policy : GovernorPolicy} (h : policy.Valid)
    (metrics : SystemMetrics) :
    IdleDecision policy metrics (policy.decide metrics.cpuUsagePercent
      (usedPct metrics.mem) 0 0) := by
  have hqueue : ¬policy.maxQueueDepth ≤ 0 := by
    have := h.maxQueueDepth.1
    rw [Int32.le_iff_toInt_le, Int32.toInt_zero]
    omega
  have hrunning : ¬policy.maxRunningJobs ≤ 0 := by
    have := h.maxRunningJobs.1
    rw [Int32.le_iff_toInt_le, Int32.toInt_zero]
    omega
  rw [GovernorPolicy.decide, if_neg hqueue, if_neg hrunning]
  split_ifs with hcpu hmem
  · exact .cpu hcpu
  · exact .mem hcpu hmem
  · exact .start hcpu hmem

/-- No job is ever counted, started or scanned, whatever the clients send: every
decision is about the pressure alone, on a sample that was published and the
policy in force, and the last one is what the status and the diagnostics tell. -/
theorem governor_idle (log : MetricsHistory) (moves : List ThreadMove) :
    let ran := threadMachine.run (.started log) moves
    ran.value.daemon.Idle ∧ ran.value.runner.jobs = [] ∧
      (∀ before nowMs metrics result after,
        ran.events = before ++ .ticked nowMs metrics result :: after →
          Published before metrics ∧
            IdleDecision (policyAfter (before.filterMap answeredBody?)) metrics
              result) ∧
      ran.value.daemon.lastTickDiagnostics =
        (ran.events.filterMap diagnostics?).getLast?.getD {} ∧
      ran.value.daemon.blockedReason =
        ran.value.daemon.lastTickDiagnostics.lastBlockReason ∧
      ran.value.daemon.retryAfterMs =
        ran.value.daemon.lastTickDiagnostics.lastRetryAfterMs := by
  intro ran
  have hshows := Shows.run log moves
  refine ⟨hshows.daemon ▸ idle_shown _, ?_, ?_, ?_,
    hshows.daemon ▸ status_shown _⟩
  · rw [hshows.runner]
    rfl
  · intro before nowMs metrics result after hsplit
    obtain ⟨hpublished, rfl⟩ := hshows.faithful before _ after hsplit
    refine ⟨hpublished, ?_⟩
    rw [← policy_shown]
    exact idleDecision_decide (policy_shown_valid before) metrics
  · rw [hshows.daemon]
    exact diagnostics_shown _

/-- The server does not take on a request that kills it, no client has hung up
on its reply, and nothing throws out of `append`. -/
def Survivable (s : Threads) : ThreadMove → Prop
  | .receive request => s.server = none → SafeRequest request
  | .brokenPipe => s.unwritten = []
  | .appendThrows _ => s.sampler = none
  | .publish _ | .append | .wake _ | .decide _ | .answer | .write => True

theorem safeRequest_of_not_prefix {request : Bytes}
    (h : ¬updateCommand <+: request) : SafeRequest request :=
  (answers_iff {} request).mp ( answers_of_not_prefix h)

/-- A request the handler survives leaves the daemon as it was. -/
theorem crash_receive (s : Threads) (request : Bytes) :
    (SafeRequest request ∧ (s.receive request).value.crash = s.crash) ∨
      (¬SafeRequest request ∧
        ∃ crash, (s.receive request).value.crash = some (.handler crash)) := by
  unfold Threads.receive
  split_ifs with hping hstatus hupdate hpolicy hdiagnostics
  · subst hping
    exact .inl ⟨ safeRequest_of_not_prefix (by decide +kernel), rfl⟩
  · subst hstatus
    exact .inl ⟨ safeRequest_of_not_prefix (by decide +kernel), rfl⟩
  · obtain ⟨body, rfl⟩ := hupdate
    rw [safeRequest_update, ← exists_foldlM_iff s.daemon.policy]
    cases hfold : (commaTokens body).foldlM assignToken s.daemon.policy with
    | ok newPolicy =>
        simp only [List.drop_left, hfold]
        exact .inl ⟨⟨newPolicy, rfl⟩, rfl⟩
    | error crash =>
        simp only [List.drop_left, hfold]
        exact .inr ⟨by simp, crash, rfl⟩
  all_goals exact .inl ⟨ safeRequest_of_not_prefix hupdate, rfl⟩

theorem crash_receive_iff {s : Threads} (h : s.crash = none)
    (request : Bytes) :
    (s.receive request).value.crash = none ↔ SafeRequest request := by
  rcases crash_receive s request with ⟨hsafe, hsame⟩ | ⟨hrisky, crash, hcrash⟩
  · exact iff_of_true (hsame.trans h) hsafe
  · exact iff_of_false (by simp [hcrash]) hrisky

theorem crash_answer (s : Threads) (request : Bytes) (pending : Pending) :
    (s.answer request pending).value.crash = s.crash := by
  cases pending with
  | _ => rfl

theorem crash_step_iff {s : Threads} (h : s.crash = none) (move : ThreadMove) :
    (s.step move).value.crash = none ↔ Survivable s move := by
  unfold Threads.step
  rw [if_neg (by simp [h])]
  cases move with
  | publish metrics =>
      refine iff_of_true ?_ trivial
      dsimp only
      split <;> exact h
  | append =>
      refine iff_of_true ?_ trivial
      dsimp only
      split <;> exact h
  | appendThrows dir =>
      rw [Survivable]
      cases hsampler : s.sampler with
      | none => exact iff_of_true h rfl
      | some metrics => simp
  | wake nowMs =>
      refine iff_of_true ?_ trivial
      dsimp only
      split <;> exact h
  | decide scan =>
      refine iff_of_true ?_ trivial
      dsimp only
      split <;> exact h
  | receive request =>
      rw [Survivable]
      cases hserver : s.server with
      | none =>
          refine (crash_receive_iff h request).trans ⟨fun hsafe _ => hsafe, ?_⟩
          intro hsurvivable
          exact hsurvivable rfl
      | some waiting => exact iff_of_true h (by simp)
  | answer =>
      refine iff_of_true ?_ trivial
      dsimp only
      split
      · exact (crash_answer s _ _).trans h
      · exact h
  | write =>
      refine iff_of_true ?_ trivial
      dsimp only
      split <;> exact h
  | brokenPipe =>
      rw [Survivable, Threads.unwritten]
      dsimp only
      split
      · simp
      · exact iff_of_true h rfl

theorem run_crashed {s : Threads} (h : s.crash.isSome)
    (moves : List ThreadMove) : (threadMachine.run s moves).value = s := by
  induction moves with
  | nil => rfl
  | cons move moves ih =>
      have hstep : (threadMachine.step s move).value = s :=
        congrArg Traced.value (s.step_of_crashed h move)
      rw [Machine.value_run_cons, hstep, ih]

theorem forall_prefix_up_iff (log : MetricsHistory) (moves : List ThreadMove) :
    (∀ before, before <+: moves →
        (threadMachine.run (.started log) before).value.crash = none) ↔
      threadMachine.Along Survivable (.started log) moves :=
  Machine.forall_prefix_iff_along (m := threadMachine)
    (I := fun s : Threads => s.crash = none)
    (fun _ move h => crash_step_iff h move) rfl

/-- The daemon is up at the end of a run exactly if none of the requests its
server took on is one that throws or reads past a key, each client was there to
be written its reply, and every `append` came back. -/
theorem daemon_up_iff (log : MetricsHistory) (moves : List ThreadMove) :
    (threadMachine.run (.started log) moves).value.crash = none ↔
      threadMachine.Along Survivable (.started log) moves := by
  rw [← forall_prefix_up_iff]
  constructor
  · rintro hup before ⟨later, rfl⟩
    rw [Machine.value_run_append] at hup
    cases hcrash : (threadMachine.run (.started log) before).value.crash with
    | none => rfl
    | some crash =>
        rw [run_crashed (by rw [hcrash]; rfl), hcrash] at hup
        exact absurd hup (by simp)
  · intro hprefixes
    exact hprefixes moves (List.prefix_refl moves)

/-- The moves that can bring the daemon down. -/
def Downfall.By (move : ThreadMove) : Downfall → Prop
  | .handler _ => ∃ request, move = .receive request ∧ ¬SafeRequest request
  | .brokenPipe => move = .brokenPipe
  | .append => ∃ dir, move = .appendThrows dir

theorem crash_stepped {s : Threads} {move : ThreadMove}
    {next : Traced ThreadEvent Threads} (hstep : s.Stepped move next)
    {downfall : Downfall} (h : next.value.crash = some downfall) :
    s.crash = some downfall ∨ downfall.By move := by
  cases hstep with
  | threw dir =>
      obtain rfl := Option.some.inj h
      exact .inr ⟨dir, rfl⟩
  | hungUp =>
      obtain rfl := Option.some.inj h
      exact .inr rfl
  | received request hserver =>
      rcases crash_receive s request with ⟨-, hsame⟩ | ⟨hrisky, crash, hcrash⟩
      · exact .inl (hsame.symm.trans h)
      · obtain rfl := Option.some.inj (h.symm.trans hcrash)
        exact .inr ⟨request, rfl, hrisky⟩
  | answered hserver =>
      rw [crash_answer] at h
      exact .inl h
  | idle | published | appended | woken | decided | wrote => exact .inl h

/-- What has brought the daemon down is one of its moves. -/
theorem crash_run (log : MetricsHistory) (moves : List ThreadMove)
    {downfall : Downfall}
    (h : (threadMachine.run (.started log) moves).value.crash = some downfall) :
    ∃ move ∈ moves, downfall.By move := by
  induction moves using List.reverseRecOn with
  | nil => cases h
  | append_singleton moves move ih =>
      rw [Machine.value_run_concat] at h
      rcases crash_stepped (Threads.stepped _ move) h with hbefore | hmove
      · obtain ⟨earlier, hmem, hby⟩ := ih hbefore
        exact ⟨earlier, List.mem_append_left _ hmem, hby⟩
      · exact ⟨move, by simp, hmove⟩

/-! Who is answered has asked. -/

structure Asked (P : Bytes → Prop) (s : Threads) (history : List ThreadEvent) :
    Prop where
  waiting : ∀ request pending, s.server = some (request, pending) → P request
  answered : ∀ request response, .answered request response ∈ history →
    P request

namespace Asked

variable {P : Bytes → Prop} {s : Threads} {history : List ThreadEvent}

theorem quiet (h : Asked P s history) {next : Traced ThreadEvent Threads}
    (hserver : next.value.server = s.server ∨ next.value.server = none)
    (hevents : next.events.filterMap answer? = []) :
    Asked P next.value (history ++ next.events) where
  waiting := by
    intro request pending hwaits
    rcases hserver with hsame | hfree
    · exact h.waiting request pending (hsame.symm.trans hwaits)
    · exact absurd (hfree.symm.trans hwaits) (by simp)
  answered request response hmem := by
    rcases List.mem_append.mp hmem with hold | hnew
    · exact h.answered request response hold
    · exact absurd (List.filterMap_eq_nil_iff.mp hevents _ hnew)
        (Option.some_ne_none _)

theorem reply (h : Asked P s history) {request : Bytes} (hasked : P request)
    (response : Bytes) : Asked P (s.reply request response).value
      (history ++ (s.reply request response).events) where
  waiting := by
    rintro _ _ ⟨⟩
    exact hasked
  answered := by
    intro other response' hmem
    rcases List.mem_append.mp hmem with hold | hnew
    · exact h.answered other response' hold
    · obtain ⟨rfl, -⟩ :=
        ThreadEvent.answered.inj (List.mem_singleton.mp hnew)
      exact hasked

theorem begin (h : Asked P s history) {request : Bytes} (hasked : P request)
    (pending : Pending) :
    Asked P { s with server := some (request, pending) } (history ++ []) where
  waiting := by
    rintro _ _ ⟨⟩
    exact hasked
  answered := by
    rw [List.append_nil]
    exact h.answered

theorem receive (h : Asked P s history) {request : Bytes}
    (hasked : P request) : Asked P (s.receive request).value
      (history ++ (s.receive request).events) := by
  unfold Threads.receive
  split_ifs with hping hstatus hupdate hpolicy hdiagnostics
  · exact h.reply hasked _
  · exact h.begin hasked (.status _)
  · dsimp only
    cases (commaTokens (request.drop updateCommand.length)).foldlM assignToken
        s.daemon.policy with
    | ok newPolicy => exact h.begin hasked (.update newPolicy)
    | error crash => exact h.quiet (.inl rfl) rfl
  · exact h.begin hasked .policy
  · exact h.begin hasked .diagnostics
  · exact h.reply hasked _

theorem answer (h : Asked P s history) {request : Bytes} {pending : Pending}
    (hserver : s.server = some (request, pending)) :
    Asked P (s.answer request pending).value
      (history ++ (s.answer request pending).events) := by
  have hasked := h.waiting request pending hserver
  cases pending with
  | status metrics => exact h.reply hasked _
  | update newPolicy =>
      have hnext : Asked P { s with daemon := { s.daemon with
          policy := (s.daemon.policy.validateAndUpdate newPolicy).2 } }
          history := ⟨h.waiting, h.answered⟩
      exact hnext.reply hasked _
  | policy => exact h.reply hasked _
  | diagnostics => exact h.reply hasked _
  | reply response =>
      have hnext : Asked P (pure s : Traced ThreadEvent Threads).value
          (history ++ (pure s : Traced ThreadEvent Threads).events) :=
        h.quiet (.inl rfl) rfl
      exact hnext

theorem stepped (h : Asked P s history) {move : ThreadMove}
    (hmove : ∀ request, move = .receive request → P request)
    {next : Traced ThreadEvent Threads} (hstep : s.Stepped move next) :
    Asked P next.value (history ++ next.events) := by
  cases hstep with
  | received request hserver => exact h.receive (hmove request rfl)
  | answered hserver => exact h.answer hserver
  | wrote hserver => exact h.quiet (.inr rfl) rfl
  | decided scan hmonitor =>
      exact h.quiet (.inl rfl) (by simp [Threads.decide, answer?])
  | idle | published | appended | threw | woken | hungUp =>
      exact h.quiet (.inl rfl) rfl

end Asked

theorem answered_received {P : Bytes → Prop} (log : MetricsHistory)
    {moves : List ThreadMove}
    (h : ∀ request, .receive request ∈ moves → P request) :
    Asked P (threadMachine.run (.started log) moves).value
      (threadMachine.run (.started log) moves).events := by
  have hmoves : threadMachine.Along
      (fun _ move => ∀ request, move = .receive request → P request)
      (.started log) moves := by
    rw [Machine.along_iff_forall_split]
    rintro before move after rfl request rfl
    exact h request (by simp)
  have hinit : Asked P (.started log) [] := ⟨by rintro _ _ ⟨⟩, by simp⟩
  exact Machine.history_along (m := threadMachine) (I := Asked P)
    (fun s _ move hasked hmove => hasked.stepped hmove (s.stepped move)) hinit
    hmoves

end HeidiKernel.Daemon
