import HeidiKernel.Daemon.Threads
import HeidiKernel.Data.Fits
import HeidiKernel.Ipc.Framing

namespace HeidiKernel.KernelCtl

open HeidiKernel.Data
open HeidiKernel.Daemon
open HeidiKernel.Transition

/-! The command line client of the daemon: the request its words make, what the
daemon makes of it, and what is printed. -/

inductive SendError
  | notCreated
  | notConnected
  | notRead
  deriving DecidableEq, Repr

def SendError.what : SendError → String
  | .notCreated => "Failed to create socket"
  | .notConnected => "Failed to connect to daemon"
  | .notRead => "Failed to read response"

/-- The answers to the calls of `send_request`. The last one are the bytes that
are read, at most as many as the buffer takes. -/
structure SendAnswers where
  created : Bool := true
  connected : Bool := true
  received : Option Bytes

def sendRequest (answers : SendAnswers) : Except SendError Bytes :=
  if !answers.created then
    .error .notCreated
  else if !answers.connected then
    .error .notConnected
  else
    match answers.received with
    | none | some [] => .error .notRead
    | some buffer => .ok (CString.text buffer)

inductive Action
  | refuse (text : Bytes)
  | send (socketPath request : Bytes)
  deriving DecidableEq

def defaultSocketPath : Bytes := bytes "/tmp/heidi-kernel.sock"

def socketOption : Bytes := bytes "--socket"

/-- The path behind the last `--socket` that has a word behind it. -/
def socketPathOf : Bytes → List Bytes → Bytes
  | path, [] | path, [_] => path
  | path, arg :: next :: rest =>
      if arg = socketOption then
        socketPathOf next rest
      else
        socketPathOf path (next :: rest)

/-- The words of a job, up to an option that is not the first of them. -/
def jobCommand (first : Bytes) (words : List Bytes) : Bytes :=
  first ++ (words.takeWhile (· ≠ socketOption)).flatMap (0x20 :: ·)

def metrics (socketPath : Bytes) (args : List Bytes) : Action :=
  let usage := bytes
    "Usage: heidi-kernelctl metrics latest|tail <n> [--socket <path>]\n"
  match args with
  | [] => .refuse usage
  | sub :: more =>
      if sub = bytes "latest" then
        .send socketPath (bytes "metrics latest\n")
      else
        match more with
        | [] => .refuse usage
        | n :: _ =>
            if sub = bytes "tail" then
              .send socketPath (bytes "metrics tail " ++ n ++ [newline])
            else
              .refuse usage

/-- `tail` and `cancel`, which need an id. -/
def jobById (socketPath : Bytes) (sub : String) (args : List Bytes) : Action :=
  match args with
  | [] => .refuse (bytes ("Usage: heidi-kernelctl job " ++ sub ++
      " <id> [--socket <path>]\n"))
  | id :: _ =>
      .send socketPath (bytes ("job " ++ sub ++ " ") ++ id ++ [newline])

def job (socketPath : Bytes) (args : List Bytes) : Action :=
  match args with
  | [] => .refuse (bytes ("Usage: heidi-kernelctl job run <command>|" ++
      "status [id]|tail <id>|cancel <id> [--socket <path>]\n"))
  | sub :: more =>
      if sub = bytes "run" then
        match more with
        | [] => .refuse (bytes
            "Usage: heidi-kernelctl job run <command> [--socket <path>]\n")
        | first :: words =>
            .send socketPath
              (bytes "job run " ++ jobCommand first words ++ [newline])
      else if sub = bytes "status" then
        match more with
        | [] => .send socketPath (bytes "job status\n")
        | id :: _ =>
            if id = socketOption then
              .send socketPath (bytes "job status\n")
            else
              .send socketPath (bytes "job status " ++ id ++ [newline])
      else if sub = bytes "tail" then
        jobById socketPath "tail" more
      else if sub = bytes "cancel" then
        jobById socketPath "cancel" more
      else
        .refuse (bytes "Unknown job subcommand: " ++ sub ++ [newline])

/-- What the words behind the name of the program ask for. -/
def action (args : List Bytes) : Action :=
  match args with
  | [] => .refuse (bytes ("Usage: heidi-kernelctl <command> " ++
      "[--socket <path>]\nCommands: ping, status, metrics latest|tail <n>, " ++
      "job run|status|tail|cancel\n"))
  | command :: rest =>
      let socketPath := socketPathOf defaultSocketPath rest
      if command = bytes "ping" then
        .send socketPath (bytes "ping\n")
      else if command = bytes "status" then
        .send socketPath (bytes "status\n")
      else if command = bytes "metrics" then
        metrics socketPath rest
      else if command = bytes "job" then
        job socketPath rest
      else
        .refuse (bytes "Unknown command: " ++ command ++ bytes
          ("\nAvailable: ping, status, metrics latest|tail <n>, " ++
            "job run|status|tail|cancel\n"))

structure Printed where
  status : Nat
  out : Bytes := []
  err : Bytes := []
  deriving DecidableEq

def main (args : List Bytes) (answers : SendAnswers) : Printed :=
  match action args with
  | .refuse text => { status := 1, out := text }
  | .send _ _ =>
      match sendRequest answers with
      | .ok response => { status := 0, out := response }
      | .error error =>
          { status := 1, err := bytes ("Error: " ++ error.what ++ "\n") }

/-! What the daemon makes of a request, however it arrives. -/

def whole {data : Bytes} (h : data ≠ []) : Splitting data where
  segments := [data]
  nonempty := by simpa using h
  flatten_eq := List.flatten_singleton

/-- What it takes for the request. -/
def received {request : Bytes} (there : Splitting request) : Bytes :=
  (IpcProtocol.deserialize
    (CString.text (there.firstRead (ipcBufferSize - 1)))).type

theorem received_prefix {request : Bytes} (there : Splitting request) :
    received there <+: request := by
  calc received there
      <+: CString.text (there.firstRead (ipcBufferSize - 1)) :=
        List.takeWhile_prefix _
    _ <+: there.firstRead (ipcBufferSize - 1) := List.takeWhile_prefix _
    _ <+: there.first := List.take_prefix _ _
    _ <+: request := there.first_prefix

/-- The requests of the commands that start a line of their own. -/
def OtherCommand (request : Bytes) : Prop :=
  request.head? = some 0x6d ∨ request.head? = some 0x6a

theorem other_of_metrics {socketPath path request : Bytes}
    {args : List Bytes} (h : metrics socketPath args = .send path request) :
    OtherCommand request := by
  have hlatest : (bytes "metrics latest\n").head? = some 0x6d := by
    decide +kernel
  have htail : (bytes "metrics tail ").head? = some 0x6d := by decide +kernel
  left
  unfold metrics at h
  cases args with
  | nil => contradiction
  | cons sub more =>
      dsimp only at h
      rcases eq_or_ne sub (bytes "latest") with rfl | hsub
      · rw [if_pos rfl] at h
        obtain ⟨-, rfl⟩ := Action.send.inj h
        exact hlatest
      · rw [if_neg hsub] at h
        cases more with
        | nil => contradiction
        | cons n rest =>
            dsimp only at h
            split_ifs at h
            obtain ⟨-, rfl⟩ := Action.send.inj h
            simp only [List.head?_append, htail, Option.some_or]

theorem head_job (word : String) :
    (bytes ("job " ++ word)).head? = some 0x6a := by
  have hjob : (bytes "job ").head? = some 0x6a := by decide +kernel
  rw [bytes_append, List.head?_append, hjob, Option.some_or]

theorem other_of_jobById {socketPath path request : Bytes} {sub : String}
    {args : List Bytes} (h : jobById socketPath sub args = .send path request) :
    OtherCommand request := by
  right
  cases args with
  | nil => contradiction
  | cons id rest =>
      obtain ⟨-, rfl⟩ := Action.send.inj h
      rw [String.append_assoc, List.append_assoc, List.head?_append, head_job,
        Option.some_or]

theorem other_of_job {socketPath path request : Bytes} {args : List Bytes}
    (h : job socketPath args = .send path request) : OtherCommand request := by
  have hrun : (bytes "job run ").head? = some 0x6a := head_job "run "
  have hstatus : (bytes "job status\n").head? = some 0x6a := head_job "status\n"
  have hid : (bytes "job status ").head? = some 0x6a := head_job "status "
  unfold job at h
  cases args with
  | nil => contradiction
  | cons sub more =>
      dsimp only at h
      split_ifs at h
      · cases more with
        | nil => contradiction
        | cons first words =>
            obtain ⟨-, rfl⟩ := Action.send.inj h
            right
            simp only [List.append_assoc, List.head?_append, hrun,
              Option.some_or]
      · cases more with
        | nil =>
            obtain ⟨-, rfl⟩ := Action.send.inj h
            exact .inr hstatus
        | cons id rest =>
            dsimp only at h
            split_ifs at h
            · obtain ⟨-, rfl⟩ := Action.send.inj h
              exact .inr hstatus
            · obtain ⟨-, rfl⟩ := Action.send.inj h
              right
              simp only [List.append_assoc, List.head?_append, hid,
                Option.some_or]
      · exact other_of_jobById h
      · exact other_of_jobById h

theorem sent_cases {args : List Bytes} {path request : Bytes}
    (h : action args = .send path request) :
    (args.head? = some (bytes "ping") ∧ request = bytes "ping\n") ∨
      (args.head? = some (bytes "status") ∧ request = bytes "status\n") ∨
      OtherCommand request := by
  unfold action at h
  cases args with
  | nil => contradiction
  | cons command rest =>
      dsimp only at h
      split_ifs at h with hping hstatus
      · obtain ⟨-, rfl⟩ := Action.send.inj h
        exact .inl ⟨congrArg some hping, rfl⟩
      · obtain ⟨-, rfl⟩ := Action.send.inj h
        exact .inr (.inl ⟨congrArg some hstatus, rfl⟩)
      · exact .inr (.inr (other_of_metrics h))
      · exact .inr (.inr (other_of_job h))

/-! No request updates the policy, since none starts like an update. -/

theorem head_prefix {front request : Bytes} (h : front <+: request) :
    front = [] ∨ front.head? = request.head? := by
  obtain ⟨rest, rfl⟩ := h
  cases front with
  | nil => exact .inl rfl
  | cons c front => exact .inr rfl

theorem not_update_of_head {request : Bytes}
    (h : request.head? ≠ some 0x67) : ¬updateCommand <+: request := by
  have hupdate : updateCommand.head? = some 0x67 := by decide +kernel
  intro hprefix
  rcases head_prefix hprefix with hnil | hhead
  · rw [hnil] at hupdate
    contradiction
  · exact h (hhead.symm.trans hupdate)

/-- The replies to a request that changes nothing. -/
inductive Plain (d : State) (request : Bytes) : Bytes → Prop
  | ping (h : request = bytes "ping") : Plain d request (bytes "pong\n")
  | status (h : request = bytes "status") : Plain d request d.printStatus
  | error (hping : request ≠ bytes "ping") (hstatus : request ≠ bytes "status") :
      Plain d request (bytes "error\n")

theorem handleRequest_plain (d : State) {request : Bytes}
    (h : request.head? ≠ some 0x67) :
    ∃ reply, d.handleRequest request = .ok (reply, d) ∧
      Plain d request reply := by
  have hpolicy : request ≠ bytes "governor/policy" := by
    rintro rfl
    exact h (by decide +kernel)
  have hdiagnostics : request ≠ bytes "governor/diagnostics" := by
    rintro rfl
    exact h (by decide +kernel)
  rcases eq_or_ne request (bytes "ping") with rfl | hping
  · exact ⟨_, if_pos rfl, .ping rfl⟩
  · rcases eq_or_ne request (bytes "status") with rfl | hstatus
    · exact ⟨_, handleRequest_status d, .status rfl⟩
    · refine ⟨bytes "error\n", ?_, .error hping hstatus⟩
      unfold State.handleRequest
      rw [if_neg hping, if_neg hstatus, if_neg (not_update_of_head h),
        if_neg hpolicy, if_neg hdiagnostics]
      rfl

section Served

variable {args : List Bytes} {path request : Bytes}

theorem head_received (h : action args = .send path request)
    (there : Splitting request) : (received there).head? ≠ some 0x67 := by
  have hhead : request.head? ≠ some 0x67 := by
    rcases sent_cases h with ⟨-, rfl⟩ | ⟨-, rfl⟩ | hother | hother
    · decide +kernel
    · decide +kernel
    · rw [hother]
      decide
    · rw [hother]
      decide
  rcases head_prefix ( received_prefix there) with hnil | hsame
  · rw [hnil]
    simp
  · rwa [hsame]

/-- Whatever words the client is given and however its request arrives, the
daemon answers and is left as it was; what is not `ping` or `status` is turned
down. -/
theorem request_harmless (h : action args = .send path request)
    (there : Splitting request) (d : State) :
    ∃ reply, d.handleRequest (received there) = .ok (reply, d) ∧
      Plain d (received there) reply ∧
      (args.head? ≠ some (bytes "ping") → args.head? ≠ some (bytes "status") →
        reply = bytes "error\n") := by
  obtain ⟨reply, hhandled, hplain⟩ :=
    handleRequest_plain d (head_received h there)
  refine ⟨reply, hhandled, hplain, ?_⟩
  intro hnotPing hnotStatus
  rcases sent_cases h with ⟨hping, -⟩ | ⟨hstatus, -⟩ | hother
  · exact absurd hping hnotPing
  · exact absurd hstatus hnotStatus
  · have hfirst : ∀ word : Bytes, word ≠ [] → word.head? ≠ some 0x6d →
        word.head? ≠ some 0x6a → received there ≠ word := by
      rintro word hword hm hj rfl
      rcases head_prefix ( received_prefix there) with hnil | hsame
      · exact hword hnil
      · rcases hother with hmetrics | hjob
        · exact hm (hsame.trans hmetrics)
        · exact hj (hsame.trans hjob)
    cases hplain with
    | ping hping =>
        exact absurd hping (hfirst _ (by decide +kernel) (by decide +kernel)
          (by decide +kernel))
    | status hstatus =>
        exact absurd hstatus (hfirst _ (by decide +kernel) (by decide +kernel)
          (by decide +kernel))
    | error => rfl

end Served

/-! A daemon that only this client talks to. -/

/-- What the daemon takes for a request when a client has sent one. -/
def FromClient (request : Bytes) : Prop :=
  ∃ args path sent, action args = .send path sent ∧
    ∃ there : Splitting sent, request = received there

theorem FromClient.head {request : Bytes} (h : FromClient request) :
    request.head? ≠ some 0x67 := by
  obtain ⟨args, path, sent, hsent, there, rfl⟩ := h
  exact head_received hsent there

theorem bodyOf?_fromClient {request : Bytes} (h : FromClient request) :
    bodyOf? request = none :=
  if_neg (not_update_of_head h.head)

/-- No request is too much for it: it can only end because a client hangs up
before its reply, or `append` throws. It keeps the policy it was started with,
whatever the clients are asked to do and however its threads interleave. -/
theorem clients_harmless (log : Metrics.MetricsHistory)
    {moves : List ThreadMove}
    (h : ∀ request, .receive request ∈ moves → FromClient request) :
    let ran := threadMachine.run (.started log) moves
    (∀ downfall, ran.value.crash = some downfall →
        (downfall = .brokenPipe ∧ .brokenPipe ∈ moves) ∨
          (downfall = .append ∧ ∃ dir, .appendThrows dir ∈ moves)) ∧
      ran.value.daemon.policy = {} ∧
      ∀ before request response after,
        ran.events = before ++ .answered request response :: after →
          ∃ metrics, Published before metrics ∧
            Plain { shown before with latestMetrics := metrics } request
              response := by
  intro ran
  have hasked := (answered_received log h).answered
  have hshows := Shows.run log moves
  refine ⟨?_, ?_, ?_⟩
  · intro downfall hdown
    obtain ⟨move, hmem, hby⟩ := crash_run log moves hdown
    cases downfall with
    | handler crash =>
        obtain ⟨request, rfl, hrisky⟩ := hby
        refine absurd ( safeRequest_of_not_prefix ?_) hrisky
        exact not_update_of_head (h request hmem).head
    | brokenPipe =>
        obtain rfl : move = .brokenPipe := hby
        exact .inl ⟨rfl, hmem⟩
    | append =>
        obtain ⟨dir, rfl⟩ := hby
        exact .inr ⟨rfl, dir, hmem⟩
  · have hbodies : ran.events.filterMap answeredBody? = [] := by
      rw [List.filterMap_eq_nil_iff]
      intro event hevent
      cases event with
      | answered request response =>
          exact bodyOf?_fromClient (hasked request response hevent)
      | _ => rfl
    rw [hshows.daemon, policy_shown, hbodies]
    rfl
  · intro before request response after hsplit
    have hmem : .answered request response ∈ ran.events := by
      rw [hsplit]
      exact List.mem_append_right _ List.mem_cons_self
    obtain ⟨metrics, hpublished, -, hreply⟩ :=
      hshows.faithful before _ after hsplit
    refine ⟨metrics, hpublished, ?_⟩
    obtain ⟨reply, hhandled, hplain⟩ := handleRequest_plain
      { shown before with latestMetrics := metrics }
      (hasked request response hmem).head
    rw [State.reply, hhandled] at hreply
    obtain rfl : reply = response := Except.ok.inj hreply
    exact hplain

/-! A client asks for the jobs of a daemon that has just sampled. -/

def wholeJobStatus : Splitting (bytes "job status\n") :=
  whole (by decide +kernel)

theorem action_jobStatus : action [bytes "job", bytes "status"] =
    .send defaultSocketPath (bytes "job status\n") := by
  decide +kernel

theorem jobStatus_harmless : ∃ reply,
    ({} : State).handleRequest (received wholeJobStatus) = .ok (reply, {}) ∧
      Plain {} (received wholeJobStatus) reply ∧
      (some (bytes "job") ≠ some (bytes "ping") →
        some (bytes "job") ≠ some (bytes "status") →
          reply = bytes "error\n") :=
  request_harmless action_jobStatus wholeJobStatus {}

def jobStatusMoves : List ThreadMove :=
  [.publish {}, .receive (received wholeJobStatus), .append, .brokenPipe]

theorem jobStatusMoves_harmless :
    let ran := threadMachine.run (.started (.afterAppends [] 0 2 []))
      jobStatusMoves
    (∀ downfall, ran.value.crash = some downfall →
        (downfall = .brokenPipe ∧ .brokenPipe ∈ jobStatusMoves) ∨
          (downfall = .append ∧
            ∃ dir, .appendThrows dir ∈ jobStatusMoves)) ∧
      ran.value.daemon.policy = {} ∧
      ∀ before request response after,
        ran.events = before ++ .answered request response :: after →
          ∃ metrics, Published before metrics ∧
            Plain { shown before with latestMetrics := metrics } request
              response := by
  apply clients_harmless
  intro request hmem
  obtain rfl : request = received wholeJobStatus := by
    simpa [jobStatusMoves] using hmem
  exact ⟨_, _, _, action_jobStatus, wholeJobStatus, rfl⟩

/-! What is printed of a reply. -/

/-- `sizeof(buffer) - 1` -/
def responseCapacity : Nat := 1023

theorem sendRequest_of_fits {reply : Bytes} (h : Fits responseCapacity reply)
    (hne : reply ≠ []) (back : Splitting reply) :
    sendRequest { received := some (back.firstRead responseCapacity) } =
      .ok back.first := by
  have htext : CString.text back.first = back.first := by
    apply List.takeWhile_eq_self_iff.mpr
    intro b hb
    have hnonzero := h.nonzero b (back.first_prefix.subset hb)
    simpa using hnonzero
  rw [back.firstRead_eq h.length_le]
  obtain ⟨b, rest, hfirst⟩ :=
    List.exists_cons_of_ne_nil (back.first_ne_nil hne)
  rw [hfirst] at htext ⊢
  exact congrArg Except.ok htext

theorem fits_blockedReasonText (reason : BlockReason) :
    Fits 13 (bytes (blockedReasonText reason)) := by
  cases reason with
  | _ => exact ⟨by decide +kernel, by decide +kernel⟩

theorem fits_printStatus {d : State}
    (h : d.latestMetrics.cpuUsagePercent.InRange) :
    Fits responseCapacity d.printStatus := by
  have hcpu := Double.fits_print h
  have hmem := Double.fits_print (x := usedPct d.latestMetrics.mem)
    (Double.inRange_div _ _)
  have hmetrics := Fits.literal "%\nmem_total: " (by decide +kernel)
    |>.append (fits_toString_uint64 d.latestMetrics.mem.total)
    |>.append (Fits.literal "\nmem_free: " (by decide +kernel))
    |>.append (fits_toString_uint64 d.latestMetrics.mem.free)
  have hjobs := Fits.literal "\nrunning_jobs: " (by decide +kernel)
    |>.append (fits_toString_int32 d.runningJobs)
    |>.append (Fits.literal "\nqueued_jobs: " (by decide +kernel))
    |>.append (fits_toString_int32 d.queuedJobs)
    |>.append (Fits.literal "\nrejected_jobs: " (by decide +kernel))
    |>.append (fits_toString_int32 d.rejectedJobs)
  have hblocked := Fits.literal "\nblocked_reason: " (by decide +kernel)
    |>.append (fits_blockedReasonText d.blockedReason)
    |>.append (Fits.literal "\nretry_after_ms: " (by decide +kernel))
    |>.append (fits_toString_uint64 d.retryAfterMs)
  have hall := Fits.literal "status\nversion: 0.1.0\ncpu: "
      (by decide +kernel)
    |>.append hcpu |>.append hmetrics |>.append hjobs |>.append hblocked
    |>.append (Fits.literal "\ncpu_pct: " (by decide +kernel)) |>.append hcpu
    |>.append (Fits.literal "\nmem_pct: " (by decide +kernel)) |>.append hmem
    |>.append (Fits.literal "\n" (by decide +kernel))
  have hroom := hall.mono (n := responseCapacity) (by decide +kernel)
  simpa only [State.printStatus, bytes_append, List.append_assoc] using hroom

theorem printStatus_ne_nil (d : State) : d.printStatus ≠ [] := by
  have hhead : bytes "status\nversion: 0.1.0\ncpu: " ≠ [] := by
    decide +kernel
  simp [State.printStatus, hhead]

/-- The command `status` prints the status of the daemon as far as it came at
once, whatever else is on the command line: nothing is cut off by a buffer. -/
theorem status_printed {args : List Bytes}
    (hcommand : args.head? = some (bytes "status")) {d : State}
    (hcpu : d.latestMetrics.cpuUsagePercent.InRange)
    {there : Splitting (bytes "status" ++ [newline])}
    (hwhole : (bytes "status").length ≤ there.first.length)
    (back : Splitting d.printStatus) :
    d.handleRequest (received there) = .ok (d.printStatus, d) ∧
      main args { received := some (back.firstRead responseCapacity) } =
        { status := 0, out := back.first } := by
  have hplain : PlainLine (bytes "status") := by
    unfold PlainLine
    exact forall_mem_of_all (by decide +kernel)
  have hreceived : received there = bytes "status" := by
    rw [received, there.firstRead_eq (by decide +kernel),
      hplain.deserialize_of_prefix there.first_prefix]
    exact ( take_eq_iff_of_prefix there.first_prefix).mpr hwhole
  refine ⟨?_, ?_⟩
  · rw [hreceived]
    exact handleRequest_status d
  · obtain ⟨command, rest, rfl⟩ : ∃ command rest, args = command :: rest := by
      cases args with
      | nil => contradiction
      | cons command rest => exact ⟨command, rest, rfl⟩
    obtain rfl : command = bytes "status" := Option.some.inj hcommand
    have haction : action (bytes "status" :: rest) =
        .send (socketPathOf defaultSocketPath rest) (bytes "status\n") := by
      unfold action
      dsimp only
      rw [if_neg (by decide +kernel), if_pos rfl]
    unfold main
    rw [haction, sendRequest_of_fits (fits_printStatus hcpu)
      (printStatus_ne_nil d) back]

def wholeStatus : Splitting (bytes "status" ++ [newline]) :=
  whole (List.concat_ne_nil _ _)

def wholeReply : Splitting ({} : State).printStatus :=
  whole (printStatus_ne_nil {})

theorem status_printed_first :
    ({} : State).handleRequest (received wholeStatus) =
        .ok (({} : State).printStatus, {}) ∧
      main [bytes "status"]
          { received := some (wholeReply.firstRead responseCapacity) } =
        { status := 0, out := wholeReply.first } :=
  status_printed (d := {}) rfl (Or.inl rfl) (by decide +kernel) wholeReply

end HeidiKernel.KernelCtl
