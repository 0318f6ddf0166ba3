import HeidiKernel.Daemon.PolicyUpdate
import HeidiKernel.Ipc.UnixSocket
import HeidiKernel.Job.Runner
import HeidiKernel.Metrics.History

namespace HeidiKernel.Daemon

open HeidiKernel.Data
open HeidiKernel.Data.Numeric
open HeidiKernel.Gov (comma colon quote lbrace rbrace)

/-! The request handler of the daemon. Every request is answered from what the
other threads have left, and one of them changes the policy. -/

abbrev MemStats := Metrics.MemStats

abbrev SystemMetrics := Metrics.SystemMetrics

/-- What the handler reads and writes. -/
structure State where
  latestMetrics : SystemMetrics := {}
  policy : GovernorPolicy := {}
  runningJobs : Int32 := 0
  queuedJobs : Int32 := 0
  rejectedJobs : Int32 := 0
  blockedReason : BlockReason := .none
  retryAfterMs : UInt64 := 0
  lastTickDiagnostics : TickDiagnostics := {}
  jobsStartedThisTick : Nat := 0
  jobsScannedThisTick : Nat := 0

def blockedReasonText : BlockReason → String
  | .none => "none"
  | .cpuHigh => "cpu_high"
  | .memHigh => "mem_high"
  | .queueFull => "queue_full"
  | .runningLimit => "running_limit"

def lastBlockReasonText : BlockReason → String
  | .none => "NONE"
  | .cpuHigh => "CPU_HIGH"
  | .memHigh => "MEM_HIGH"
  | .queueFull => "QUEUE_FULL"
  | .runningLimit => "RUNNING_LIMIT"

def lastDecisionText : GovernorDecision → String
  | .startNow => "START_NOW"
  | .holdQueue => "HOLD_QUEUE"
  | .rejectQueueFull => "REJECT_QUEUE_FULL"

/-- `(total - free) * 100.0 / total`, with an unsigned difference. -/
def usedPct (mem : MemStats) : Double :=
  ((Double.ofNat (mem.total - mem.free).toNat).mul (.ofNat 100)).div
    (.ofNat mem.total.toNat)

def State.printStatus (d : State) : Bytes :=
  let metrics := d.latestMetrics
  bytes "status\nversion: 0.1.0\ncpu: " ++ metrics.cpuUsagePercent.print ++
    bytes ("%\nmem_total: " ++ toString metrics.mem.total ++
      "\nmem_free: " ++ toString metrics.mem.free ++
      "\nrunning_jobs: " ++ toString d.runningJobs ++
      "\nqueued_jobs: " ++ toString d.queuedJobs ++
      "\nrejected_jobs: " ++ toString d.rejectedJobs ++
      "\nblocked_reason: " ++ blockedReasonText d.blockedReason ++
      "\nretry_after_ms: " ++ toString d.retryAfterMs ++ "\ncpu_pct: ") ++
    metrics.cpuUsagePercent.print ++ bytes "\nmem_pct: " ++
    (usedPct metrics.mem).print ++ bytes "\n"

def State.printDiagnostics (d : State) : Bytes :=
  let diag := d.lastTickDiagnostics
  bytes ("governor/diagnostics\nlast_decision: " ++
    lastDecisionText diag.lastDecision ++
    "\nlast_block_reason: " ++ lastBlockReasonText diag.lastBlockReason ++
    "\nlast_retry_after_ms: " ++ toString diag.lastRetryAfterMs ++
    "\nlast_tick_now_ms: " ++ toString diag.lastTickNowMs ++
    "\nlast_tick_running: " ++ toString diag.lastTickRunning ++
    "\nlast_tick_queued: " ++ toString diag.lastTickQueued ++
    "\njobs_started_this_tick: " ++ toString d.jobsStartedThisTick ++
    "\njobs_scanned_this_tick: " ++ toString d.jobsScannedThisTick ++ "\n")

def updateCommand : Bytes := bytes "governor/policy_update "

def State.handleRequest (request : Bytes) (d : State) :
    Except Crash (Bytes × State) :=
  if request = bytes "ping" then
    pure (bytes "pong\n", d)
  else if request = bytes "status" then
    pure (d.printStatus, d)
  else if updateCommand <+: request then do
    let body := request.drop updateCommand.length
    let (reply, policy) ← updatePolicy body d.policy
    pure (reply, { d with policy })
  else if request = bytes "governor/policy" then
    pure (printPolicy "governor/policy" d.policy, d)
  else if request = bytes "governor/diagnostics" then
    pure (d.printDiagnostics, d)
  else
    pure (bytes "error\n", d)

def State.reply (d : State) (request : Bytes) : Except Crash Bytes :=
  Prod.fst <$> d.handleRequest request

def State.Answers (d : State) (request : Bytes) : Prop :=
  ∃ response, d.reply request = .ok response

/-! Which bodies `update_policy` survives. -/

/-- A key without a quote in front and one behind. -/
def bareKey (key : Bytes) : Bytes :=
  let key := if key.head? = some quote then key.tail else key
  if key.getLast? = some quote then key.dropLast else key

/-- The conversion made for a known key succeeds. -/
structure Convertible (key value : Bytes) : Prop where
  limit : key = bytes "max_running_jobs" ∨ key = bytes "max_queue_depth" →
    (stoi value).isOk
  percentage : key = bytes "cpu_high_watermark_pct" ∨
    key = bytes "mem_high_watermark_pct" → (Double.stod value).isOk
  duration : key = bytes "cooldown_ms" ∨ key = bytes "min_start_gap_ms" →
    (stoull value).isOk

/-- A token without a colon, or with a key that is neither empty nor a lone
quote, and a value the key can take. -/
def SafeToken (token : Bytes) : Prop :=
  colon ∈ trimToken token →
    keyText (trimToken token) ≠ [] ∧ keyText (trimToken token) ≠ [quote] ∧
      Convertible (bareKey (keyText (trimToken token)))
        (valueText (trimToken token))

def SafeRequest (request : Bytes) : Prop :=
  ∀ body, request = updateCommand ++ body →
    ∀ token ∈ commaTokens body, SafeToken token

theorem exists_orThrow_iff {α β : Type}
    {result : Except ConversionError α} {f : α → β} :
    (∃ b, (orThrow result >>= fun a => pure (f a)) = .ok b) ↔
      result.isOk := by
  cases result <;> simp [orThrow, Except.isOk, Except.toBool]

/-- An assignment crashes exactly if the conversion of its value throws. -/
theorem exists_assign_iff {key value : Bytes} (policy : GovernorPolicy) :
    (∃ new, assign key value policy = .ok new) ↔ Convertible key value := by
  have hconvertible : Convertible key value ↔
      (key = bytes "max_running_jobs" ∨ key = bytes "max_queue_depth" →
        (stoi value).isOk) ∧
      (key = bytes "cpu_high_watermark_pct" ∨
        key = bytes "mem_high_watermark_pct" → (Double.stod value).isOk) ∧
      (key = bytes "cooldown_ms" ∨ key = bytes "min_start_gap_ms" →
        (stoull value).isOk) :=
    ⟨fun h => ⟨h.limit, h.percentage, h.duration⟩,
      fun h => ⟨h.1, h.2.1, h.2.2⟩⟩
  rw [hconvertible]
  unfold assign
  split_ifs with hrunning hqueue hcpu hmem hcooldown hgap
  case neg => simp [*]
  all_goals rw [exists_orThrow_iff]
  all_goals simp_all

/-- The quotes of a key crash the update exactly if it is empty, or empty
behind its first quote. -/
theorem trimQuotes_eq (key : Bytes) :
    (trimFrontQuote key >>= trimBackQuote) =
      if key = [] then .error .emptyFront
      else if key = [quote] then .error .emptyBack
      else .ok (bareKey key) := by
  cases key with
  | nil => rfl
  | cons c key =>
      by_cases hquote : c = quote
      · subst hquote
        cases hlast : key.getLast? with
        | none =>
            obtain rfl := List.getLast?_eq_none_iff.mp hlast
            rfl
        | some last =>
            have hne : key ≠ [] := by
              rintro rfl
              contradiction
            simp [trimFrontQuote, trimBackQuote, bareKey, hlast, hne]
      · cases hlast : (c :: key).getLast? with
        | none => simp at hlast
        | some last =>
            simp [trimFrontQuote, trimBackQuote, bareKey, hlast, hquote]

section Loop

variable (valueOf : Bytes → Bytes)

theorem parseWith_eq (token : Bytes) :
    parseWith valueOf token =
      if colon ∈ trimToken token then
        (trimFrontQuote (keyText (trimToken token)) >>= trimBackQuote) >>=
          fun key => pure (some (key, valueOf (trimToken token)))
      else pure none := by
  simp only [parseWith, bind_assoc]

/-- A token crashes the loop exactly if its key is empty but for a quote in
front, or its value is turned down. -/
theorem exists_assignWith_iff {token : Bytes} (policy : GovernorPolicy) :
    (∃ new, assignWith valueOf policy token = .ok new) ↔
      (colon ∈ trimToken token →
        keyText (trimToken token) ≠ [] ∧ keyText (trimToken token) ≠ [quote] ∧
          Convertible (bareKey (keyText (trimToken token)))
            (valueOf (trimToken token))) := by
  unfold assignWith
  rw [parseWith_eq, trimQuotes_eq]
  split_ifs with hcolon hempty hquote
  · simp [hcolon, hempty]
  · simp [hcolon, hquote]
  · simpa [hcolon, hempty, hquote] using exists_assign_iff policy
  · simp [hcolon]

end Loop

theorem exists_foldlM_iff {tokens : List Bytes} (policy : GovernorPolicy) :
    (∃ new, tokens.foldlM assignToken policy = .ok new) ↔
      ∀ token ∈ tokens, SafeToken token := by
  apply foldlM_succeeds_iff
  intro policy token
  exact exists_assignWith_iff valueText policy

theorem exists_updatePolicy_iff {body : Bytes} (policy : GovernorPolicy) :
    (∃ reply new, updatePolicy body policy = .ok (reply, new)) ↔
      ∀ token ∈ commaTokens body, SafeToken token := by
  rw [← exists_foldlM_iff policy]
  have houtcome := updatePolicy_outcome body policy
  generalize updatePolicy body policy = result at houtcome ⊢
  cases houtcome with
  | crashed hfold => simp [hfold]
  | refused hfold hinvalid => simp [hfold]
  | updated hfold hvalid => simp [hfold]

/-! The handler as a whole, and the serve loop around it. -/

theorem answers_of_not_prefix {d : State} {request : Bytes}
    (h : ¬updateCommand <+: request) : d.Answers request := by
  unfold State.Answers State.reply State.handleRequest
  split_ifs
  all_goals exact ⟨_, rfl⟩

theorem handleRequest_update (d : State) (body : Bytes) :
    d.handleRequest (updateCommand ++ body) =
      (updatePolicy body d.policy >>= fun (reply, policy) =>
        pure (reply, { d with policy })) := by
  have hspace : 0x20 ∈ updateCommand ++ body :=
    List.mem_append_left body (by decide +kernel)
  have hping : updateCommand ++ body ≠ bytes "ping" :=
    ne_of_mem_of_not_mem' hspace (by decide +kernel)
  have hstatus : updateCommand ++ body ≠ bytes "status" :=
    ne_of_mem_of_not_mem' hspace (by decide +kernel)
  rw [State.handleRequest, if_neg hping, if_neg hstatus,
    if_pos (List.prefix_append _ _), List.drop_left]

theorem answers_update_iff (d : State) (body : Bytes) :
    d.Answers (updateCommand ++ body) ↔
      ∀ token ∈ commaTokens body, SafeToken token := by
  rw [← exists_updatePolicy_iff d.policy, State.Answers, State.reply,
    handleRequest_update]
  constructor
  · rintro ⟨response, h⟩
    obtain ⟨⟨reply, next⟩, hhandled, -⟩ := map_eq_ok.mp h
    obtain ⟨⟨reply', new⟩, hnew, -⟩ := bind_eq_ok.mp hhandled
    exact ⟨reply', new, hnew⟩
  · rintro ⟨reply, new, h⟩
    exact ⟨reply, by rw [h]; rfl⟩

theorem safeRequest_update {body : Bytes} :
    SafeRequest (updateCommand ++ body) ↔
      ∀ token ∈ commaTokens body, SafeToken token := by
  constructor
  · intro h
    exact h body rfl
  · intro h body' hbody
    rwa [← List.append_cancel_left hbody]

theorem answers_iff (d : State) (request : Bytes) :
    d.Answers request ↔ SafeRequest request := by
  by_cases hupdate : updateCommand <+: request
  · obtain ⟨body, rfl⟩ := hupdate
    rw [answers_update_iff, safeRequest_update]
  · constructor
    · rintro - body rfl
      exact absurd (List.prefix_append _ _) hupdate
    · intro _
      exact answers_of_not_prefix hupdate

/-- The handler answers exactly the requests that update nothing and the
updates all of whose tokens are safe; the daemon serves on exactly as long as
it reads no others, whatever the state it finds. -/
theorem request_survived_iff (d : State) (request : Bytes)
    (clients : List (State × Option Bytes)) :
    (d.Answers request ↔ SafeRequest request) ∧
      ((UnixSocketServer.serveForever State.reply clients).value = .ok () ↔
        ∀ client ∈ clients, ∀ buffer, client.2 = some buffer →
          buffer ≠ [] → SafeRequest
            (IpcProtocol.deserialize (CString.text buffer)).type) := by
  refine ⟨answers_iff d request, ?_⟩
  rw [UnixSocketServer.value_serveForever_eq_ok]
  refine forall₂_congr fun client _ => ?_
  rw [UnixSocketServer.value_handleClient_eq_ok]
  exact forall₃_congr fun buffer _ _ => answers_iff client.1 _

def abcRequest : Bytes := bytes "governor/policy_update max_running_jobs:abc"

def emptyKeyRequest : Bytes := bytes "governor/policy_update :5"

def crashOf {α : Type} : Except Crash α → Option Crash
  | .ok _ => none
  | .error crash => some crash

/-- A limit that is no number throws; an empty key has no first character. -/
theorem requests_crash :
    crashOf (({} : State).reply abcRequest) =
        some (.thrown .invalidArgument) ∧
      crashOf (({} : State).reply emptyKeyRequest) = some .emptyFront ∧
      ¬∀ (d : State) (request : Bytes), d.Answers request := by
  have hempty : crashOf (({} : State).reply emptyKeyRequest) =
      some .emptyFront := by
    decide +kernel
  refine ⟨by decide +kernel, hempty, fun h => ?_⟩
  obtain ⟨response, hresponse⟩ := h {} emptyKeyRequest
  rw [hresponse] at hempty
  cases hempty

end HeidiKernel.Daemon
