import HeidiKernel.Data.CString
import HeidiKernel.Transition.Machine
import Mathlib.Data.List.DropRight

namespace HeidiKernel

open HeidiKernel.Transition
open HeidiKernel.Data

/-! The status socket: the answer to one client and the loop that serves them.
Other threads publish events; all of them share the list of subscribers. -/

def newline : UInt8 := 10

def carriageReturn : UInt8 := 13

structure KernelStatus where
  protocolVersion : UInt32 := 1
  version : Bytes := bytes "0.1.0"
  pid : Int32 := 0
  queueDepth : Int32 := 0
  deriving DecidableEq, Repr

/-- What `format_status` reads from the clock and from `/proc`. -/
structure StatusReadings where
  uptimeMs : Int64 := 0
  rssKb : UInt64 := 0
  threads : Int32 := 1
  deriving DecidableEq, Repr

/-- `format_status`, for a version that leaves room in its buffer. -/
def KernelStatus.formatStatus (status : KernelStatus)
    (readings : StatusReadings) : Bytes :=
  bytes ("\x7b\"protocol_version\":" ++ toString status.protocolVersion ++
      ",\"version\":\"") ++ status.version ++
    bytes ("\",\"pid\":" ++ toString status.pid ++
      ",\"uptime_ms\":" ++ toString readings.uptimeMs ++
      ",\"rss_kb\":" ++ toString readings.rssKb ++
      ",\"threads\":" ++ toString readings.threads ++
      ",\"queue_depth\":" ++ toString status.queueDepth ++ "\x7d\n")

def versionBufferSize : Nat := 128

/-- The reply `snprintf` leaves in `vbuf`. -/
def KernelStatus.formatVersion (status : KernelStatus) : Bytes :=
  (bytes ("PROTOCOL " ++ toString status.protocolVersion ++ " DAEMON ") ++
    status.version ++ [newline]).take (versionBufferSize - 1)

inductive SocketEvent
  | accepted (fd : Int)
  | dispatched (fd : Int) (request : Bytes)
  | wrote (fd : Int) (response : Bytes)
  | closed (fd : Int)
  deriving DecidableEq, Repr

/-- The answers to the `select` and the `read` made for one client. The bytes
read are at most one less than the buffer holds. -/
structure ClientAnswers where
  ready : Int := 1
  received : Option Bytes := none
  deriving DecidableEq, Repr

def isLineEnd (b : UInt8) : Bool := b = newline || b = carriageReturn

/-- The request in a buffer: a C string without the line ends behind it. -/
def requestText (buffer : Bytes) : Bytes :=
  (CString.text buffer).rdropWhile isLineEnd

def subscribeCommand : Bytes := bytes "SUBSCRIBE"

def KernelStatus.response (status : KernelStatus) (readings : StatusReadings)
    (request : Bytes) : Bytes :=
  if request = bytes "ping" then
    bytes "PONG\n"
  else if request = bytes "version" then
    status.formatVersion
  else if request = bytes "status" ∨ request = bytes "status/json" ∨
      request = bytes "STATUS" then
    status.formatStatus readings
  else if request = subscribeCommand then
    []
  else if request ≠ [] then
    bytes "ERR UNKNOWN_COMMAND " ++ request ++ [newline]
  else
    []

/-- `handle_client`, as what it leaves in `subscribers_`. The replies to a
subscriber are not recorded, and no result of `send` or `write` is looked at. -/
def handleClient (status : KernelStatus) (readings : StatusReadings)
    (clientFd : Int) (answers : ClientAnswers) (subscribers : List Int) :
    Traced SocketEvent (List Int) :=
  if answers.ready ≤ 0 then do
    Traced.log (.closed clientFd)
    pure subscribers
  else
    match answers.received with
    | none | some [] => do
        Traced.log (.closed clientFd)
        pure subscribers
    | some buffer => do
        let request := requestText buffer
        Traced.log (.dispatched clientFd request)
        let response := status.response readings request
        if response ≠ [] then
          Traced.log (.wrote clientFd response)
        if request = subscribeCommand then
          pure (subscribers ++ [clientFd])
        else
          pure subscribers

/-- The two loops that close and erase the subscribers they cannot reach. -/
def dropFailed (fails : Int → Bool) :
    List Int → Traced SocketEvent (List Int)
  | [] => pure []
  | fd :: rest =>
      if fails fd then do
        Traced.log (.closed fd)
        dropFailed fails rest
      else do
        let kept ← dropFailed fails rest
        pure (fd :: kept)

/-- Where the thread of `serve_forever` stands. The descriptors found readable
are carried from `select` to the removal loop. -/
inductive ServePoint
  | top
  | watching (watched : List Int)
  | accepting (readable : List Int)
  | serving (readable : List Int) (clientFd : Int)
  | sweeping (readable : List Int)
  | stopped
  deriving DecidableEq, Repr

inductive SelectAnswer
  | interrupted
  | failed
  | timedOut
  | ready (server : Bool) (readable : Int → Bool)

structure StatusSocket where
  status : KernelStatus := {}
  subscribers : List Int := []
  point : ServePoint := .top
  deriving DecidableEq, Repr

/-- One step of the loop, each with one access to the shared list, or a call of
`publish_event` by another thread with the results of its sends. -/
inductive SocketMove
  | watch (stopRequested : Bool)
  | select (answer : SelectAnswer)
  | accept (clientFd : Int)
  | handle (readings : StatusReadings) (answers : ClientAnswers)
  | sweep (recv : Int → Option Bytes)
  | publish (sent : Int → Int)

namespace StatusSocket

/-- `recv` returned a byte, neither end of file nor an error. -/
def received? (answer : Option Bytes) : Bool := answer.any (· ≠ [])

/-- A move the loop is not at does nothing. -/
def step (s : StatusSocket) : SocketMove → Traced SocketEvent StatusSocket
  | .watch stopRequested =>
      match s.point with
      | .top =>
          if stopRequested then
            pure { s with point := .stopped }
          else
            pure { s with point := .watching s.subscribers }
      | _ => pure s
  | .select answer =>
      match s.point with
      | .watching watched =>
          match answer with
          | .interrupted | .timedOut => pure { s with point := .top }
          | .failed => pure { s with point := .stopped }
          | .ready server readable =>
              if server then
                pure { s with point := .accepting (watched.filter readable) }
              else
                pure { s with point := .sweeping (watched.filter readable) }
      | _ => pure s
  | .accept clientFd =>
      match s.point with
      | .accepting readable =>
          if clientFd ≥ 0 then do
            Traced.log (.accepted clientFd)
            pure { s with point := .serving readable clientFd }
          else
            pure { s with point := .sweeping readable }
      | _ => pure s
  | .handle readings answers =>
      match s.point with
      | .serving readable clientFd => do
          let subscribers ←
            handleClient s.status readings clientFd answers s.subscribers
          pure { s with subscribers, point := .sweeping readable }
      | _ => pure s
  | .sweep recv =>
      match s.point with
      | .sweeping readable => do
          let subscribers ← dropFailed
            (fun fd => fd ∈ readable && !received? (recv fd)) s.subscribers
          pure { s with subscribers, point := .top }
      | _ => pure s
  | .publish sent => do
      let subscribers ← dropFailed (fun fd => sent fd < 0) s.subscribers
      pure { s with subscribers }

end StatusSocket

def socketMachine : Machine StatusSocket SocketMove SocketEvent where
  step := StatusSocket.step

def serveForever (moves : List SocketMove) : Traced SocketEvent StatusSocket :=
  socketMachine.run {} moves

/-- A client sends nothing in time, or something can be read from it. -/
theorem ClientAnswers.silent_or_reads (answers : ClientAnswers) :
    (answers.ready ≤ 0 ∨ answers.received.getD [] = []) ∨
      ∃ buffer, 0 < answers.ready ∧ answers.received = some buffer ∧
        buffer ≠ [] := by
  by_cases hready : answers.ready ≤ 0
  · exact .inl (.inl hready)
  · cases hreceived : answers.received with
    | none => exact .inl (.inr rfl)
    | some buffer =>
        cases buffer with
        | nil => exact .inl (.inr rfl)
        | cons b buffer =>
            exact .inr ⟨b :: buffer, Int.not_le.mp hready, rfl,
              List.cons_ne_nil b buffer⟩

section HandleClient

variable (status : KernelStatus) (readings : StatusReadings) (clientFd : Int)
  (subscribers : List Int) {answers : ClientAnswers}

/-- A client that sends nothing in time is closed. -/
theorem handleClient_silent
    (h : answers.ready ≤ 0 ∨ answers.received.getD [] = []) :
    handleClient status readings clientFd answers subscribers =
      ⟨subscribers, [.closed clientFd]⟩ := by
  obtain ⟨ready, received⟩ := answers
  by_cases hready : ready ≤ 0
  · ext1 <;> simp [handleClient, hready]
  · cases received with
    | none => ext1 <;> simp [handleClient, hready]
    | some buffer =>
        obtain rfl : buffer = [] := h.resolve_left hready
        ext1 <;> simp [handleClient, hready]

/-- A client that sends something has it dispatched, and is not closed. -/
theorem handleClient_read {buffer : Bytes} (hready : 0 < answers.ready)
    (hreceived : answers.received = some buffer) (hread : buffer ≠ []) :
    handleClient status readings clientFd answers subscribers =
      ⟨if requestText buffer = subscribeCommand then subscribers ++ [clientFd]
          else subscribers,
        .dispatched clientFd (requestText buffer) ::
          if status.response readings (requestText buffer) = [] then []
          else [.wrote clientFd
            (status.response readings (requestText buffer))]⟩ := by
  obtain ⟨b, rest, rfl⟩ := List.exists_cons_of_ne_nil hread
  unfold handleClient
  rw [if_neg (Int.not_le.mpr hready), hreceived]
  simp only
  generalize status.response readings (requestText (b :: rest)) = response
  generalize requestText (b :: rest) = request
  cases response with
  | nil =>
      ext1
      · by_cases hsubscribe : request = subscribeCommand <;> simp [hsubscribe]
      · by_cases hsubscribe : request = subscribeCommand <;> simp [hsubscribe]
  | cons c response =>
      ext1
      · by_cases hsubscribe : request = subscribeCommand <;> simp [hsubscribe]
      · by_cases hsubscribe : request = subscribeCommand <;> simp [hsubscribe]

end HandleClient

/-! A removal loop keeps what it can reach and closes the rest. -/

theorem dropFailed_eq (fails : Int → Bool) (fds : List Int) :
    dropFailed fails fds =
      ⟨fds.filter fun fd => !fails fd, (fds.filter fails).map .closed⟩ := by
  induction fds with
  | nil => rfl
  | cons fd fds ih =>
      cases hfails : fails fd <;> ext1 <;> simp [dropFailed, hfails, ih]

end HeidiKernel
