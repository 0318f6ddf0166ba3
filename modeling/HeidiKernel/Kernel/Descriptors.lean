import HeidiKernel.Kernel.StatusSocket

namespace HeidiKernel

open HeidiKernel.Transition

/-! Where the descriptors of the clients go. The kernel hands them out at
`accept` and takes them back at `close`; the socket knows those it lists as
subscribers. -/

/-- The table of open descriptors, which no close may miss. -/
def tableStep (table : List Int) : SocketEvent → Option (List Int)
  | .accepted fd => some (table ++ [fd])
  | .closed fd => if fd ∈ table then some (table.erase fd) else none
  | .dispatched .. | .wrote .. => some table

/-- The open client descriptors after what has happened, unless a descriptor
has been closed that was not open. -/
def openClients (history : List SocketEvent) : Option (List Int) :=
  history.foldlM tableStep []

def SocketEvent.opened? : SocketEvent → Option Int
  | .accepted fd => some fd
  | .closed _ | .dispatched .. | .wrote .. => none

def SocketEvent.closed? : SocketEvent → Option Int
  | .closed fd => some fd
  | .accepted _ | .dispatched .. | .wrote .. => none

/-- The client of a request that ends neither in a subscription nor in a
close. -/
def SocketEvent.leaked? : SocketEvent → Option Int
  | .dispatched fd request =>
      if request = subscribeCommand then none else some fd
  | .accepted _ | .closed _ | .wrote .. => none

def leakedClients (history : List SocketEvent) : List Int :=
  history.filterMap SocketEvent.leaked?

theorem openClients_append (history events : List SocketEvent) :
    openClients (history ++ events) =
      (openClients history).bind fun table => events.foldlM tableStep table :=
  List.foldlM_append

@[simp] theorem leakedClients_append (history events : List SocketEvent) :
    leakedClients (history ++ events) =
      leakedClients history ++ leakedClients events :=
  List.filterMap_append

/-- Closing descriptors of the table takes out exactly those. -/
theorem foldlM_closed {table fds rest : List Int}
    (hperm : table.Perm (fds ++ rest)) :
    ∃ left, (fds.map SocketEvent.closed).foldlM tableStep table = some left ∧
      left.Perm rest := by
  induction fds generalizing table with
  | nil => exact ⟨table, rfl, hperm⟩
  | cons fd fds ih =>
      have hmem : fd ∈ table := hperm.mem_iff.mpr List.mem_cons_self
      have herase : (table.erase fd).Perm (fds ++ rest) := by
        simpa using hperm.erase fd
      obtain ⟨left, hfold, hleft⟩ := ih herase
      refine ⟨left, ?_, hleft⟩
      simpa [tableStep, hmem] using hfold

/-- Every descriptor handed out is open or has been taken back. -/
theorem count_opened {history : List SocketEvent} {table : List Int}
    (htable : openClients history = some table) (fd : Int) :
    (history.filterMap SocketEvent.opened?).count fd =
      (history.filterMap SocketEvent.closed?).count fd + table.count fd := by
  induction history using List.reverseRecOn generalizing table with
  | nil =>
      obtain rfl : [] = table := Option.some.inj htable
      rfl
  | append_singleton history event ih =>
      rw [openClients_append] at htable
      obtain ⟨before, hbefore, hstep⟩ := Option.bind_eq_some_iff.mp htable
      have hcount := ih hbefore
      rw [List.filterMap_append, List.filterMap_append, List.count_append,
        List.count_append, hcount]
      cases event with
      | accepted other =>
          obtain rfl : before ++ [other] = table := by
            simpa [tableStep] using hstep
          simp [SocketEvent.opened?, SocketEvent.closed?, List.filterMap_cons,
            List.count_append]
          omega
      | closed other =>
          by_cases hmem : other ∈ before
          · obtain rfl : before.erase other = table := by
              simpa [tableStep, hmem] using hstep
            have hpos := List.count_pos_iff.mpr hmem
            by_cases hsame : other = fd
            · subst hsame
              simp [SocketEvent.opened?, SocketEvent.closed?,
                List.filterMap_cons, List.count_erase_self]
              omega
            · simp [SocketEvent.opened?, SocketEvent.closed?,
                List.filterMap_cons, List.count_erase_of_ne (Ne.symm hsame),
                hsame]
          · simp [tableStep, hmem] at hstep
      | dispatched other request =>
          obtain rfl : before = table := by simpa [tableStep] using hstep
          simp [SocketEvent.opened?, SocketEvent.closed?, List.filterMap_cons]
      | wrote other response =>
          obtain rfl : before = table := by simpa [tableStep] using hstep
          simp [SocketEvent.opened?, SocketEvent.closed?, List.filterMap_cons]

namespace StatusSocket

/-- The client that has been accepted and not yet handled. -/
def inService (s : StatusSocket) : List Int :=
  match s.point with
  | .serving _ clientFd => [clientFd]
  | .top | .watching _ | .accepting _ | .sweeping _ | .stopped => []

/-- The kernel hands out a descriptor that is not open. -/
def FreshAccept (s : StatusSocket) (history : List SocketEvent) :
    SocketMove → Prop
  | .accept clientFd =>
      ∀ readable, s.point = .accepting readable → 0 ≤ clientFd →
        ∀ table, openClients history = some table → clientFd ∉ table
  | .watch _ | .select _ | .handle .. | .sweep _ | .publish _ => True

/-- A client that sends anything subscribes. -/
def RegistersOrCloses (s : StatusSocket) : SocketMove → Prop
  | .handle _ answers =>
      ∀ readable clientFd, s.point = .serving readable clientFd →
        0 < answers.ready → ∀ buffer, answers.received = some buffer →
          buffer ≠ [] → requestText buffer = subscribeCommand
  | .watch _ | .select _ | .accept _ | .sweep _ | .publish _ => True

/-- What a move can come to. -/
inductive Stepped (s : StatusSocket) :
    SocketMove → Traced SocketEvent StatusSocket → Prop
  | quiet {move : SocketMove} {point : ServePoint}
      (hservice : inService { s with point } = s.inService)
      (hregisters : s.RegistersOrCloses move) :
      Stepped s move ⟨{ s with point }, []⟩
  | accepted {readable : List Int} {clientFd : Int}
      (hpoint : s.point = .accepting readable) (hfd : 0 ≤ clientFd) :
      Stepped s (.accept clientFd)
        ⟨{ s with point := .serving readable clientFd }, [.accepted clientFd]⟩
  | handled {readable : List Int} {clientFd : Int}
      (hpoint : s.point = .serving readable clientFd)
      {readings : StatusReadings} {answers : ClientAnswers}
      {served : Traced SocketEvent (List Int)}
      (hserved : handleClient s.status readings clientFd answers
        s.subscribers = served) :
      Stepped s (.handle readings answers)
        ⟨{ s with subscribers := served.value, point := .sweeping readable },
          served.events⟩
  | dropped {move : SocketMove} {point : ServePoint}
      (hservice : inService { s with point } = s.inService)
      (hregisters : s.RegistersOrCloses move) (fails : Int → Bool) :
      Stepped s move
        ⟨{ s with
            subscribers := s.subscribers.filter fun fd => !fails fd
            point },
          (s.subscribers.filter fails).map .closed⟩

theorem step_serving {s : StatusSocket} {readable : List Int} {clientFd : Int}
    (hpoint : s.point = .serving readable clientFd)
    {readings : StatusReadings} {answers : ClientAnswers} :
    s.step (.handle readings answers) =
      let served :=
        handleClient s.status readings clientFd answers s.subscribers
      ⟨{ s with subscribers := served.value, point := .sweeping readable },
        served.events⟩ := by
  ext1 <;> simp [step, hpoint]

theorem step_sweeping {s : StatusSocket} {readable : List Int}
    (hpoint : s.point = .sweeping readable) {recv : Int → Option Bytes} :
    s.step (.sweep recv) =
      let fails := fun fd => fd ∈ readable && !received? (recv fd)
      ⟨{ s with
          subscribers := s.subscribers.filter fun fd => !fails fd
          point := .top },
        (s.subscribers.filter fails).map .closed⟩ := by
  ext1 <;> simp [step, hpoint, dropFailed_eq]

theorem step_publish {s : StatusSocket} {sent : Int → Int} :
    s.step (.publish sent) =
      let fails := fun fd => decide (sent fd < 0)
      ⟨{ s with subscribers := s.subscribers.filter fun fd => !fails fd },
        (s.subscribers.filter fails).map .closed⟩ := by
  ext1 <;> simp [step, dropFailed_eq]

theorem step_stepped (s : StatusSocket) (move : SocketMove) :
    Stepped s move (s.step move) := by
  obtain ⟨status, subscribers, point⟩ := s
  cases move with
  | watch stopRequested =>
      cases point with
      | top => cases stopRequested <;> exact .quiet rfl trivial
      | watching | accepting | serving | sweeping | stopped =>
          exact .quiet rfl trivial
  | select answer =>
      cases point with
      | watching watched =>
          cases answer with
          | interrupted | failed | timedOut => exact .quiet rfl trivial
          | ready server readable =>
              cases server <;> exact .quiet rfl trivial
      | top | accepting | serving | sweeping | stopped =>
          exact .quiet rfl trivial
  | accept clientFd =>
      cases point with
      | accepting readable =>
          by_cases hfd : 0 ≤ clientFd
          · simp only [step, ge_iff_le, if_pos hfd]
            exact .accepted rfl hfd
          · simp only [step, ge_iff_le, if_neg hfd]
            exact .quiet rfl trivial
      | top | watching | serving | sweeping | stopped =>
          exact .quiet rfl trivial
  | handle readings answers =>
      cases point with
      | serving readable clientFd =>
          rw [step_serving rfl]
          exact .handled rfl rfl
      | top | watching | accepting | sweeping | stopped =>
          refine .quiet rfl ?_
          intro readable clientFd hpoint
          contradiction
  | sweep recv =>
      cases point with
      | sweeping readable =>
          rw [step_sweeping rfl]
          refine .dropped ?_ ?_ _
          · rfl
          · trivial
      | top | watching | accepting | serving | stopped =>
          exact .quiet rfl trivial
  | publish sent =>
      rw [step_publish]
      refine .dropped ?_ ?_ _
      · rfl
      · trivial

/-- The open descriptors belong to the subscribers, to the client in service
and to the clients that have been forgotten. -/
structure Ledger (s : StatusSocket) (history : List SocketEvent)
    (table : List Int) : Prop where
  opened : openClients history = some table
  nodup : table.Nodup
  owners : table.Perm (s.subscribers ++ s.inService ++ leakedClients history)

/-- A dispatched request touches no descriptor, and forgets its client unless
it subscribes. -/
theorem leakedClients_dispatched (clientFd : Int) (request response : Bytes) :
    leakedClients (.dispatched clientFd request ::
      if response = [] then [] else [.wrote clientFd response]) =
      if request = subscribeCommand then [] else [clientFd] := by
  cases response <;> by_cases hsubscribe : request = subscribeCommand <;>
    simp [leakedClients, SocketEvent.leaked?, hsubscribe]

theorem foldlM_dispatched (clientFd : Int) (request response : Bytes)
    (table : List Int) :
    (SocketEvent.dispatched clientFd request ::
      if response = [] then [] else [.wrote clientFd response]).foldlM
        tableStep table = some table := by
  cases response <;> rfl

theorem leakedClients_closed (fds : List Int) :
    leakedClients (fds.map .closed) = [] := by
  induction fds with
  | nil => rfl
  | cons fd fds ih => exact ih

/-- A step forgets no client exactly if the client it handles subscribes or is
closed. -/
theorem leakedClients_step_iff (s : StatusSocket) (move : SocketMove) :
    leakedClients (s.step move).events = [] ↔ s.RegistersOrCloses move := by
  have hstepped := step_stepped s move
  generalize s.step move = next at hstepped ⊢
  cases hstepped with
  | quiet hservice hregisters =>
      exact ⟨fun _ => hregisters, fun _ => rfl⟩
  | accepted hpoint hfd => exact ⟨fun _ => trivial, fun _ => rfl⟩
  | dropped hservice hregisters fails =>
      exact ⟨fun _ => hregisters, fun _ => leakedClients_closed _⟩
  | @handled readable clientFd hpoint readings answers served hserved =>
      have hcondition : s.RegistersOrCloses (.handle readings answers) ↔
          (0 < answers.ready → ∀ buffer, answers.received = some buffer →
            buffer ≠ [] → requestText buffer = subscribeCommand) := by
        simp [RegistersOrCloses, hpoint]
      rw [hcondition]
      subst hserved
      rcases answers.silent_or_reads with
        hsilent | ⟨buffer, hready, hreceived, hread⟩
      · rw [handleClient_silent _ _ _ _ hsilent]
        refine ⟨fun _ hready buffer hreceived hread => ?_, fun _ => rfl⟩
        rw [hreceived] at hsilent
        exact absurd (hsilent.resolve_left (by omega)) hread
      · rw [handleClient_read _ _ _ _ hready hreceived hread,
          leakedClients_dispatched]
        by_cases hsubscribe : requestText buffer = subscribeCommand
        · simp [hsubscribe, hreceived]
        · simp [hsubscribe, hread, hready, hreceived]

theorem leakedClients_run_iff (s : StatusSocket) (moves : List SocketMove) :
    leakedClients (socketMachine.run s moves).events = [] ↔
      socketMachine.Along RegistersOrCloses s moves := by
  induction moves generalizing s with
  | nil => exact ⟨fun _ => trivial, fun _ => rfl⟩
  | cons move moves ih =>
      rw [Machine.events_run_cons, leakedClients_append,
        List.append_eq_nil_iff, ih]
      exact and_congr_left fun _ => leakedClients_step_iff s move

namespace Ledger

variable {s : StatusSocket} {history : List SocketEvent} {table : List Int}
  (h : Ledger s history table)

include h

/-- Closing some of the owners leaves the books of the others. -/
theorem close (s' : StatusSocket) (fds : List Int)
    (hperm : (s.subscribers ++ s.inService).Perm
      (fds ++ (s'.subscribers ++ s'.inService))) :
    ∃ left, Ledger s' (history ++ fds.map .closed) left := by
  have howners : table.Perm (fds ++
      (s'.subscribers ++ s'.inService ++ leakedClients history)) := by
    rw [← List.append_assoc]
    exact h.owners.trans (hperm.append_right _)
  obtain ⟨left, hfold, hleft⟩ := foldlM_closed howners
  refine ⟨left, ?_, ?_, ?_⟩
  · rw [openClients_append, h.opened]
    exact hfold
  · rw [hleft.nodup_iff]
    exact (List.nodup_append.mp (howners.nodup_iff.mp h.nodup)).2.1
  · rwa [leakedClients_append, leakedClients_closed, List.append_nil]

theorem step {move : SocketMove} (hfresh : s.FreshAccept history move) :
    ∃ left, Ledger (s.step move).value (history ++ (s.step move).events)
      left := by
  have hstepped := step_stepped s move
  generalize s.step move = next at hstepped ⊢
  cases hstepped with
  | quiet hservice hregisters =>
      refine ⟨table, by simpa using h.opened, h.nodup, ?_⟩
      simpa [hservice] using h.owners
  | @accepted readable clientFd hpoint hfd =>
      have hnew : clientFd ∉ table :=
        hfresh readable hpoint hfd table h.opened
      have howners := h.owners
      refine ⟨table ++ [clientFd], ?_, ?_, ?_⟩
      · rw [openClients_append, h.opened]
        rfl
      · rw [(List.perm_append_singleton clientFd table).nodup_iff]
        exact List.nodup_cons.mpr ⟨hnew, h.nodup⟩
      · simp only [inService, hpoint, List.append_nil] at howners
        have hsame : leakedClients (history ++ [.accepted clientFd]) =
            leakedClients history := by
          rw [leakedClients_append]
          exact List.append_nil _
        rw [hsame, inService, List.append_assoc, List.singleton_append]
        exact (List.perm_append_singleton clientFd table).trans
          ((howners.cons clientFd).trans List.perm_middle.symm)
  | @dropped move point hservice hregisters fails =>
      refine h.close _ _ ?_
      rw [← hservice, ← List.append_assoc]
      exact (List.filter_append_perm fails s.subscribers).symm.append_right _
  | @handled readable clientFd hpoint readings answers served hserved =>
      subst hserved
      have hservice : s.inService = [clientFd] := by rw [inService, hpoint]
      rcases answers.silent_or_reads with
        hsilent | ⟨buffer, hready, hreceived, hread⟩
      · rw [handleClient_silent _ _ _ _ hsilent]
        refine h.close _ [clientFd] ?_
        rw [hservice, inService, List.append_nil]
        exact List.perm_append_comm
      · rw [handleClient_read _ _ _ _ hready hreceived hread]
        have howners := h.owners
        rw [hservice] at howners
        refine ⟨table, ?_, h.nodup, ?_⟩
        · rw [openClients_append, h.opened]
          exact foldlM_dispatched _ _ _ _
        · rw [leakedClients_append, leakedClients_dispatched]
          by_cases hsubscribe : requestText buffer = subscribeCommand
          · simpa [hsubscribe, inService] using howners
          · simp only [hsubscribe, if_false, inService, List.append_nil]
            refine howners.trans ?_
            rw [List.append_assoc]
            exact List.perm_append_comm.append_left _

end Ledger

/-- The open client descriptors are exactly the subscribers, each listed once;
every other descriptor that was accepted has been closed once. -/
structure Accounted (s : StatusSocket) (history : List SocketEvent) :
    Prop where
  opened : ∃ table, openClients history = some table ∧
    table.Perm s.subscribers
  listed_once : s.subscribers.Nodup
  closed_once : ∀ fd, (history.filterMap SocketEvent.opened?).count fd =
    (history.filterMap SocketEvent.closed?).count fd +
      if fd ∈ s.subscribers then 1 else 0

theorem inService_of_top {s : StatusSocket} (h : s.point = .top) :
    s.inService = [] := by
  rw [inService, h]

theorem Ledger.accounted_iff {s : StatusSocket} {history : List SocketEvent}
    {table : List Int} (h : Ledger s history table)
    (hservice : s.inService = []) :
    Accounted s history ↔ leakedClients history = [] := by
  have howners := h.owners
  rw [hservice, List.append_nil] at howners
  constructor
  · intro haccounted
    obtain ⟨table', htable', hperm⟩ := haccounted.opened
    obtain rfl : table = table' := Option.some.inj (h.opened.symm.trans htable')
    have hlength := (hperm.symm.trans howners).length_eq
    rw [List.length_append] at hlength
    exact List.eq_nil_of_length_eq_zero (by omega)
  · intro hleaked
    rw [hleaked, List.append_nil] at howners
    have hnodup : s.subscribers.Nodup := howners.nodup_iff.mp h.nodup
    refine ⟨⟨table, h.opened, howners⟩, hnodup, fun fd => ?_⟩
    rw [count_opened h.opened fd, howners.count_eq, hnodup.count]

/-- However clients, kernel and publishing threads behave: when the loop is
back at its top, the descriptors are accounted for exactly if no client has
sent anything but a subscription. -/
theorem serveForever_accounted_iff {moves : List SocketMove}
    (hfresh : socketMachine.AlongLog FreshAccept {} [] moves)
    (hboundary : (serveForever moves).value.point = .top) :
    Accounted (serveForever moves).value (serveForever moves).events ↔
      socketMachine.Along RegistersOrCloses {} moves := by
  obtain ⟨table, hledger⟩ := Machine.history_alongLog (m := socketMachine)
    (I := fun s history => ∃ table, Ledger s history table)
    (fun _ _ _ ⟨_, h⟩ hfresh => h.step hfresh)
    ⟨[], rfl, List.nodup_nil, List.Perm.nil⟩ hfresh
  rw [List.nil_append] at hledger
  rw [← leakedClients_run_iff]
  exact hledger.accounted_iff (inService_of_top hboundary)

section OneClient

/-! One round of the loop with one client, on descriptor five. -/

def oneClient (request : Bytes) : List SocketMove :=
  [.watch false, .select (.ready true fun _ => false), .accept 5,
    .handle {} { received := some request }, .sweep fun _ => none]

theorem oneClient_fresh (request : Bytes) :
    socketMachine.AlongLog FreshAccept {} [] (oneClient request) := by
  refine ⟨trivial, trivial, ?_, trivial, trivial, trivial⟩
  rintro readable - - table htable
  obtain rfl : [] = table := Option.some.inj htable
  exact List.not_mem_nil

theorem oneClient_top (request : Bytes) :
    (serveForever (oneClient request)).value.point = .top := rfl

theorem subscriber_accounted :
    let run := serveForever (oneClient (bytes "SUBSCRIBE\n"))
    Accounted run.value run.events := by
  have hsubscribe : requestText (bytes "SUBSCRIBE\n") = subscribeCommand := by
    decide +kernel
  refine (serveForever_accounted_iff (oneClient_fresh _) (oneClient_top _)).mpr
    ⟨trivial, trivial, trivial, ?_, trivial, trivial⟩
  rintro readable clientFd - - buffer hbuffer -
  obtain rfl : bytes "SUBSCRIBE\n" = buffer := Option.some.inj hbuffer
  exact hsubscribe

theorem ping_leaks_descriptor :
    ¬ ∀ moves, socketMachine.AlongLog FreshAccept {} [] moves →
      (serveForever moves).value.point = .top →
        Accounted (serveForever moves).value (serveForever moves).events := by
  intro h
  have haccounted := h _ (oneClient_fresh (bytes "ping\n")) (oneClient_top _)
  obtain ⟨table, htable, hperm⟩ := haccounted.opened
  have hsubscribers : (serveForever
      (oneClient (bytes "ping\n"))).value.subscribers = [] := by
    decide +kernel
  have hopen : openClients (serveForever
      (oneClient (bytes "ping\n"))).events = some [5] := by
    decide +kernel
  rw [hsubscribers] at hperm
  rw [hopen, hperm.eq_nil] at htable
  contradiction

end OneClient

end StatusSocket

end HeidiKernel
