import HeidiKernel.Config.ConfigParser
import HeidiKernel.Kernel.EventLoop
import HeidiKernel.Kernel.StatusSocket

namespace HeidiKernel

open HeidiKernel.Data
open HeidiKernel.Transition

/-! The main function of the kernel: what it makes of its command line, and the
life of its three threads up to the shutdown. -/

namespace Kernel

inductive Start
  | showHelp
  | showVersion
  | serve (socketPath : Bytes)
  deriving DecidableEq, Repr

def defaultSocketPath (xdgRuntime : Option Bytes) : Bytes :=
  match xdgRuntime with
  | some dir => dir ++ bytes "/heidi-kernel.sock"
  | none => bytes "/run/heidi-kernel/heidi-kernel.sock"

def startWith (config : Config) (xdgRuntime : Option Bytes) : Start :=
  if config.showHelp then
    .showHelp
  else if config.showVersion then
    .showVersion
  else if config.socketPath ≠ [] then
    .serve config.socketPath
  else
    .serve (defaultSocketPath xdgRuntime)

/-- The arguments behind the name of the program, `HEIDI_KERNEL_SOCK` and
`XDG_RUNTIME_DIR`. The error of the parser is dropped. -/
def start (args : List Bytes) (envSock xdgRuntime : Option Bytes) : Start :=
  match ConfigParser.parse args envSock with
  | .ok config => startWith config xdgRuntime
  | .error _ => startWith {} xdgRuntime

end Kernel

namespace ConfigParser

def Item.isHelp : Item → Bool
  | .help _ => true
  | _ => false

def Item.isVersion : Item → Bool
  | .version _ => true
  | _ => false

def Item.socketPath? : Item → Option Bytes
  | .socketPath value => some value
  | _ => none

/-- What the items leave in the fields that `main` reads. -/
theorem foldl_apply (items : List Item) (config : Config) :
    (items.foldl Item.apply config).showHelp =
        (config.showHelp || items.any Item.isHelp) ∧
      (items.foldl Item.apply config).showVersion =
        (config.showVersion || items.any Item.isVersion) ∧
      (items.foldl Item.apply config).socketPath =
        (items.filterMap Item.socketPath?).getLastD config.socketPath := by
  induction items generalizing config with
  | nil => simp
  | cons item items ih =>
      obtain ⟨hhelp, hversion, hpath⟩ := ih (item.apply config)
      rw [List.foldl_cons, hhelp, hversion, hpath]
      refine ⟨?_, ?_, ?_⟩
      · cases item <;> simp [Item.apply, Item.isHelp]
      · cases item <;> simp [Item.apply, Item.isVersion]
      · cases item <;>
          simp only [Item.apply, Item.socketPath?, List.filterMap_cons,
            List.getLastD_cons]

end ConfigParser

namespace Kernel

open HeidiKernel.ConfigParser

/-- Help goes before the version, and the version before the service; the last
path that is given counts, and an empty one is none. A command line that is
refused counts for nothing, together with the path in the environment. -/
theorem start_reads (envSock xdgRuntime : Option Bytes) :
    (∀ items last, Dangling last →
      start (commandLine items last) envSock xdgRuntime =
        if items.any Item.isHelp then .showHelp
        else if items.any Item.isVersion then .showVersion
        else
          let given :=
            (items.filterMap Item.socketPath?).getLastD (envSock.getD [])
          .serve (if given = [] then defaultSocketPath xdgRuntime
            else given)) ∧
      ∀ args, ¬ WellFormed args →
        start args envSock xdgRuntime =
          .serve (defaultSocketPath xdgRuntime) := by
  constructor
  · intro items last hlast
    have hparse : parse (commandLine items last) envSock = .ok _ :=
      parseFrom_commandLine items hlast _
    obtain ⟨hhelp, hversion, hpath⟩ := foldl_apply items
      { logLevel := bytes "info", socketPath := envSock.getD [] }
    simp only [start, hparse, startWith, hhelp, hversion, hpath,
      Bool.false_or]
    split_ifs <;> first | rfl | contradiction
  · intro args hmalformed
    cases hparse : parse args envSock with
    | ok config => exact absurd (wellFormed_of_parseFrom hparse) hmalformed
    | error error =>
        rw [start, hparse]
        rfl

theorem start_reads_socket :
    start (commandLine [.logLevel (bytes "debug"), .socketPath (bytes "/a")]
        [bytes "--config"]) none none = .serve (bytes "/a") ∧
      start [bytes "--help", bytes "now"] (some (bytes "/b")) none =
        .serve (bytes "/run/heidi-kernel/heidi-kernel.sock") := by
  constructor
  · refine ((start_reads none none).1 _ _ (.inr ⟨_, ?_, rfl⟩)).trans ?_
    · simp [valueNames]
    · decide +kernel
  · refine (start_reads (some (bytes "/b")) none).2 _ fun hwell => ?_
    obtain ⟨items, last, hlast, hline⟩ := hwell
    have hread := parseFrom_commandLine items hlast {}
    rw [← hline] at hread
    have hrefused : parseFrom [bytes "--help", bytes "now"] false {} =
        .error ⟨.invalidArgument, bytes "Unknown argument"⟩ := by
      decide +kernel
    rw [hrefused] at hread
    contradiction

end Kernel

/-! The threads of the service: `main` itself, the worker of the event loop and
the one in `serve_forever`. Nothing is published in this program. -/

/-- The program of `app` tells the status socket to stop before the event loop,
that of `src/kernel` when the loop has ended. -/
inductive ShutdownOrder
  | statusFirst
  | loopFirst
  deriving DecidableEq, Repr

/-- Where `main` is, from the bind of the status socket on. It calls `set_stop`
at `telling` or at `setting`. -/
inductive MainPoint
  | binding
  | launching
  | starting
  | spawning
  | assigning
  | waiting
  | telling
  | requesting
  | polling
  | setting
  | joining
  | exited
  deriving DecidableEq, Repr

/-- The steps in front of `main`. -/
def MainPoint.left : MainPoint → Nat
  | .binding => 11
  | .launching => 10
  | .starting => 9
  | .spawning => 8
  | .assigning => 7
  | .waiting => 6
  | .telling => 5
  | .requesting => 4
  | .polling => 3
  | .setting => 2
  | .joining => 1
  | .exited => 0

/-- How far `main` is inside `EventLoop::run`. -/
def MainPoint.callers : MainPoint → List RunPhase
  | .spawning => [.exchanged]
  | .assigning => [.spawned]
  | _ => []

/-- Before its thread is launched the status socket stands at its end. -/
structure Kernel where
  order : ShutdownOrder
  main : MainPoint := .binding
  opened : Bool := false
  signalled : Bool := false
  loop : EventLoop := { tickInterval := 100 }
  socket : StatusSocket := { point := .stopped }
  stopRequested : Bool := false

/-- What the thread of the status socket is told, wherever it stands. -/
structure ServeAnswers where
  select : SelectAnswer
  clientFd : Int
  readings : StatusReadings
  client : ClientAnswers
  recv : Int → Option Bytes

inductive KernelMove
  | signal
  | main (opened : Bool)
  | elapse (ns : Nat)
  | work (notified : Bool)
  | serve (answers : ServeAnswers)

abbrev KernelEvent := LoopEvent ⊕ SocketEvent

namespace Kernel

def boot (order : ShutdownOrder) (status : KernelStatus) : Kernel :=
  { order, socket := { status, point := .stopped } }

def moveLoop (s : Kernel) (move : LoopMove) (next : MainPoint) :
    Traced KernelEvent Kernel := do
  let loop ← (s.loop.step move).relabel Sum.inl
  pure { s with loop, main := next }

/-- One step of `main`. The answer is whether the status socket is listening,
without which `serve_forever` returns at once. -/
def mainStep (opened : Bool) (s : Kernel) : Traced KernelEvent Kernel :=
  match s.main with
  | .binding => pure { s with opened, main := .launching }
  | .launching => pure { s with
      socket.point := if s.opened then .top else .stopped
      main := .starting }
  | .starting => s.moveLoop .run .spawning
  | .spawning => s.moveLoop (.spawn 0) .assigning
  | .assigning => s.moveLoop (.assign 0) .waiting
  | .waiting =>
      if s.signalled then
        match s.order with
        | .statusFirst => pure { s with main := .telling }
        | .loopFirst => pure { s with main := .requesting }
      else
        pure s
  | .telling => pure { s with stopRequested := true, main := .requesting }
  | .requesting => s.moveLoop .requestStop .polling
  | .polling =>
      if s.loop.running then
        pure s
      else
        match s.order with
        | .statusFirst => pure { s with main := .joining }
        | .loopFirst => pure { s with main := .setting }
  | .setting => pure { s with stopRequested := true, main := .joining }
  | .joining =>
      if s.socket.point = .stopped then
        pure { s with main := .exited }
      else
        pure s
  | .exited => pure s

def serveMove (s : Kernel) (answers : ServeAnswers) : SocketMove :=
  match s.socket.point with
  | .top | .stopped => .watch s.stopRequested
  | .watching _ => .select answers.select
  | .accepting _ => .accept answers.clientFd
  | .serving .. => .handle answers.readings answers.client
  | .sweeping _ => .sweep answers.recv

def step (s : Kernel) : KernelMove → Traced KernelEvent Kernel
  | .signal => pure { s with signalled := true }
  | .main opened => s.mainStep opened
  | .elapse ns => s.moveLoop (.elapse ns) s.main
  | .work notified => s.moveLoop (.work 0 notified) s.main
  | .serve answers => do
      let socket ← (s.socket.step (s.serveMove answers)).relabel Sum.inr
      pure { s with socket }

end Kernel

def kernelMachine : Machine Kernel KernelMove KernelEvent where
  step := Kernel.step

namespace Kernel

/-- Whether `main` is behind its call of `set_stop`. -/
def told (s : Kernel) : Bool :=
  match s.order with
  | .statusFirst => s.main.left ≤ 4
  | .loopFirst => s.main.left ≤ 1

/-- What holds at every point of `main`: the flags of the two loops say how far
it has come, and it has come there for a reason. -/
structure Controlled (s : Kernel) : Prop where
  counted : s.loop.Counted
  alive : s.loop.terminated = false
  callers : s.loop.callers = s.main.callers
  joinable : s.loop.joinable = decide (s.main.left ≤ 6)
  idle : 9 ≤ s.main.left → s.loop.running = false
  asked : s.loop.stopRequested = decide (s.main.left ≤ 3)
  told : s.stopRequested = s.told
  telling : s.main = .telling → s.order = .statusFirst
  signalled : s.main.left ≤ 5 → s.signalled = true
  ended : s.main.left ≤ 2 → s.loop.running = false
  joined : s.main = .exited → s.socket.point = .stopped

theorem Controlled.init (order : ShutdownOrder) (status : KernelStatus) :
    Controlled (boot order status) where
  counted := EventLoop.Counted.init 100
  alive := rfl
  callers := rfl
  joinable := rfl
  idle _ := rfl
  asked := rfl
  told := by cases order <;> rfl
  telling h := by contradiction
  signalled h := absurd h (by simp [boot, MainPoint.left])
  ended _ := rfl
  joined _ := rfl

/-! What the loop does, called from `main`. -/

section LoopSteps

variable {loop : EventLoop} (halive : loop.terminated = false)
include halive

theorem step_run (hcallers : loop.callers = [])
    (hrunning : loop.running = false) :
    loop.step .run =
      pure { loop with running := true, callers := [.exchanged] } := by
  simp [EventLoop.step, halive, hcallers, hrunning]

theorem step_spawn (hcallers : loop.callers = [.exchanged]) :
    loop.step (.spawn 0) = pure { loop with
      workers := loop.workers ++ [.entered]
      callers := [.spawned] } := by
  simp [EventLoop.step, EventLoop.spawn, halive, hcallers]

theorem step_assign (hcallers : loop.callers = [.spawned])
    (hjoinable : loop.joinable = false) :
    loop.step (.assign 0) =
      pure { loop with joinable := true, callers := [] } := by
  simp [EventLoop.step, EventLoop.assign, halive, hcallers, hjoinable]

theorem step_elapse (ns : Nat) :
    loop.step (.elapse ns) = pure { loop with nowNs := loop.nowNs + ns } := by
  simp [EventLoop.step, halive]

theorem step_work (worker : Nat) (notified : Bool) :
    loop.step (.work worker notified) = loop.work worker notified := by
  simp [EventLoop.step, halive]

end LoopSteps

theorem serve_stopped {s : Kernel} (h : s.socket.point = .stopped)
    (answers : ServeAnswers) : s.step (.serve answers) = pure s := by
  have hstep : s.socket.step (s.serveMove answers) = pure s.socket := by
    simp only [serveMove, h, StatusSocket.step]
  ext1
  · simp [step, hstep]
  · simp [step, hstep]

namespace Controlled

variable {s : Kernel}

/-- `main` up to the event loop's thread being kept. -/
theorem startUp (h : Controlled s) (hleft : 7 ≤ s.main.left) (opened : Bool) :
    Controlled (s.mainStep opened).value := by
  obtain ⟨order, main, opened', signalled, loop, socket, stopRequested⟩ := s
  obtain ⟨hcounted, halive, hcallers, hjoinable, hidle, hasked, htold,
    htelling, hsignalled, hended, hjoined⟩ := h
  have hnext := fun move => EventLoop.Counted.step hcounted move
  dsimp only at *
  cases main with
  | binding | launching =>
      exact ⟨hcounted, halive, hcallers, hjoinable, fun _ => hidle (by decide),
        hasked, by cases order <;> exact htold, nofun, nofun,
        fun _ => hidle (by decide), nofun⟩
  | starting =>
      have hcounted' := hnext .run
      have hstep := step_run halive hcallers (hidle (by decide))
      simp only [mainStep, moveLoop, hstep] at hcounted' ⊢
      exact ⟨hcounted', halive, rfl, hjoinable, nofun, hasked,
        by cases order <;> exact htold, nofun, nofun, nofun, nofun⟩
  | spawning =>
      have hcounted' := hnext (.spawn 0)
      have hstep := step_spawn halive hcallers
      simp only [mainStep, moveLoop, hstep] at hcounted' ⊢
      exact ⟨hcounted', halive, rfl, hjoinable, nofun, hasked,
        by cases order <;> exact htold, nofun, nofun, nofun, nofun⟩
  | assigning =>
      have hcounted' := hnext (.assign 0)
      have hstep := step_assign halive hcallers hjoinable
      simp only [mainStep, moveLoop, hstep] at hcounted' ⊢
      exact ⟨hcounted', halive, rfl, rfl, nofun, hasked,
        by cases order <;> exact htold, nofun, nofun, nofun, nofun⟩
  | _ => exact absurd hleft (by decide)

/-- `main` from its wait for the signal on. -/
theorem shutDown (h : Controlled s) (hleft : s.main.left ≤ 6) (opened : Bool) :
    Controlled (s.mainStep opened).value := by
  obtain ⟨order, main, opened', signalled, loop, socket, stopRequested⟩ := s
  obtain ⟨hcounted, halive, hcallers, hjoinable, hidle, hasked, htold,
    htelling, hsignalled, hended, hjoined⟩ := h
  have hnext := fun move => EventLoop.Counted.step hcounted move
  dsimp only at *
  cases main with
  | waiting =>
      rw [mainStep]
      dsimp only
      rcases em (signalled = true) with hsignal | hnone
      · rw [if_pos hsignal]
        cases order with
        | statusFirst =>
            exact ⟨hcounted, halive, hcallers, hjoinable, nofun, hasked, htold,
              fun _ => rfl, fun _ => hsignal, nofun, nofun⟩
        | loopFirst =>
            exact ⟨hcounted, halive, hcallers, hjoinable, nofun, hasked, htold,
              nofun, fun _ => hsignal, nofun, nofun⟩
      · rw [if_neg hnone]
        exact ⟨hcounted, halive, hcallers, hjoinable, nofun, hasked, htold,
          nofun, nofun, nofun, nofun⟩
  | telling =>
      obtain rfl := htelling rfl
      exact ⟨hcounted, halive, hcallers, hjoinable, nofun, hasked, rfl, nofun,
        fun _ => hsignalled (by decide), nofun, nofun⟩
  | requesting =>
      have hcounted' := hnext .requestStop
      have hstep : loop.step .requestStop = _ :=
        EventLoop.requestStop_eq halive
      simp only [mainStep, moveLoop, hstep] at hcounted' ⊢
      exact ⟨hcounted', halive, hcallers, hjoinable, nofun, rfl,
        by cases order <;> exact htold, nofun,
        fun _ => hsignalled (by decide), nofun, nofun⟩
  | polling =>
      rw [mainStep]
      dsimp only
      cases hrunning : loop.running with
      | true =>
          exact ⟨hcounted, halive, hcallers, hjoinable, nofun, hasked, htold,
            nofun, hsignalled, nofun, nofun⟩
      | false =>
          cases order with
          | statusFirst | loopFirst =>
              exact ⟨hcounted, halive, hcallers, hjoinable, nofun, hasked,
                htold, nofun, fun _ => hsignalled (by decide),
                fun _ => hrunning, nofun⟩
  | setting =>
      exact ⟨hcounted, halive, hcallers, hjoinable, nofun, hasked,
        by cases order <;> rfl, nofun, fun _ => hsignalled (by decide),
        fun _ => hended (by decide), nofun⟩
  | joining =>
      rw [mainStep]
      dsimp only
      split_ifs with hstopped
      · exact ⟨hcounted, halive, hcallers, hjoinable, nofun, hasked,
          by cases order <;> exact htold, nofun,
          fun _ => hsignalled (by decide), fun _ => hended (by decide),
          fun _ => hstopped⟩
      · exact ⟨hcounted, halive, hcallers, hjoinable, nofun, hasked, htold,
          nofun, hsignalled, hended, nofun⟩
  | exited =>
      exact ⟨hcounted, halive, hcallers, hjoinable, hidle, hasked, htold, nofun,
        hsignalled, hended, hjoined⟩
  | _ => exact absurd hleft (by decide)

theorem main (h : Controlled s) (opened : Bool) :
    Controlled (s.mainStep opened).value := by
  rcases Nat.lt_or_ge s.main.left 7 with hleft | hleft
  · exact h.shutDown (Nat.le_of_lt_succ hleft) opened
  · exact h.startUp hleft opened

theorem step (h : Controlled s) (move : KernelMove) :
    Controlled (s.step move).value := by
  cases move with
  | signal =>
      exact { h with signalled := fun _ => rfl }
  | main opened => exact h.main opened
  | elapse ns =>
      have hcounted := h.counted.step (.elapse ns)
      have hstep := step_elapse h.alive ns
      simp only [Kernel.step, moveLoop, hstep] at hcounted ⊢
      exact { h with counted := hcounted }
  | work notified =>
      have hcounted := h.counted.work 0 notified
      obtain ⟨hframe, hrunning⟩ := EventLoop.work_frame s.loop 0 notified
      have hstep := step_work h.alive 0 notified
      simp only [Kernel.step, moveLoop, hstep]
      change Controlled { s with loop := (s.loop.work 0 notified).value }
      rw [hframe] at hcounted ⊢
      exact { h with
        counted := hcounted
        idle := fun hleft => hrunning (h.idle hleft)
        ended := fun hleft => hrunning (h.ended hleft) }
  | serve answers =>
      refine { h with joined := fun hmain => ?_ }
      have hstopped := h.joined hmain
      rw [serve_stopped hstopped]
      exact hstopped

theorem run (order : ShutdownOrder) (status : KernelStatus)
    (moves : List KernelMove) :
    Controlled (kernelMachine.run (boot order status) moves).value :=
  Machine.invariant_run (m := kernelMachine) (I := Controlled)
    (fun _ move h => h.step move) (.init order status) moves

theorem loopEnded (h : Controlled s) (hleft : s.main.left ≤ 2) :
    s.loop.Ended := by
  have hrunning := h.ended hleft
  obtain ⟨hcallers, hdone⟩ := h.counted.running_iff.mp hrunning
  exact ⟨hrunning, hcallers, hdone⟩

end Controlled

theorem mainStep_keeps (s : Kernel) (opened : Bool) :
    (s.mainStep opened).value.order = s.order ∧
      (s.mainStep opened).value.signalled = s.signalled := by
  unfold mainStep
  cases s.main with
  | waiting | polling =>
      dsimp only
      split_ifs
      · cases s.order <;> exact ⟨rfl, rfl⟩
      · cases s.order <;> exact ⟨rfl, rfl⟩
  | joining =>
      dsimp only
      split_ifs
      · exact ⟨rfl, rfl⟩
      · exact ⟨rfl, rfl⟩
  | _ => exact ⟨rfl, rfl⟩

theorem order_run (order : ShutdownOrder) (status : KernelStatus)
    (moves : List KernelMove) :
    (kernelMachine.run (boot order status) moves).value.order = order := by
  refine Machine.invariant_run (m := kernelMachine)
    (I := fun s => s.order = order) (fun s move h => ?_) rfl moves
  cases move with
  | main opened => exact (s.mainStep_keeps opened).1.trans h
  | signal | elapse ns | work notified | serve answers => exact h

theorem signalled_step (s : Kernel) (move : KernelMove) :
    (s.step move).value.signalled = true ↔
      s.signalled = true ∨ move = .signal := by
  cases move with
  | signal => exact ⟨fun _ => .inr rfl, fun _ => rfl⟩
  | main opened =>
      have hframe := (s.mainStep_keeps opened).2
      simp [step, hframe]
  | elapse ns => exact ⟨.inl, fun h => h.resolve_right nofun⟩
  | work notified => exact ⟨.inl, fun h => h.resolve_right nofun⟩
  | serve answers => exact ⟨.inl, fun h => h.resolve_right nofun⟩

theorem signalled_run (order : ShutdownOrder) (status : KernelStatus)
    (moves : List KernelMove) :
    (kernelMachine.run (boot order status) moves).value.signalled = true ↔
      .signal ∈ moves := by
  induction moves using List.reverseRecOn with
  | nil => exact ⟨nofun, nofun⟩
  | append_singleton moves move ih =>
      rw [Machine.value_run_concat, List.mem_append, List.mem_singleton, ← ih]
      exact (signalled_step _ move).trans (or_congr_right eq_comm)

/-! `main` returns last. -/

structure Over (s : Kernel) : Prop where
  main : s.main = .exited
  loop : s.loop.Ended
  status : s.socket.point = .stopped

theorem Controlled.over {s : Kernel} (h : Controlled s)
    (hmain : s.main = .exited) : Over s where
  main := hmain
  loop := h.loopEnded (by simp [hmain, MainPoint.left])
  status := h.joined hmain

theorem Over.step {s : Kernel} (h : Over s) (move : KernelMove) :
    Over (s.step move).value ∧ (s.step move).events = [] := by
  cases move with
  | signal => exact ⟨⟨h.main, h.loop, h.status⟩, rfl⟩
  | main opened =>
      simp only [Kernel.step, mainStep, h.main]
      exact ⟨h, rfl⟩
  | elapse ns =>
      have hmove : LoopMove.elapse ns ≠ .run := nofun
      obtain ⟨hloop, hevents⟩ := h.loop.step hmove
      exact ⟨⟨h.main, hloop, h.status⟩, by simp [Kernel.step, moveLoop, hevents]⟩
  | work notified =>
      have hmove : LoopMove.work 0 notified ≠ .run := nofun
      obtain ⟨hloop, hevents⟩ := h.loop.step hmove
      exact ⟨⟨h.main, hloop, h.status⟩, by simp [Kernel.step, moveLoop, hevents]⟩
  | serve answers =>
      rw [serve_stopped h.status]
      exact ⟨h, rfl⟩

theorem Over.run {s : Kernel} (h : Over s) (moves : List KernelMove) :
    Over (kernelMachine.run s moves).value ∧
      (kernelMachine.run s moves).events = [] := by
  induction moves generalizing s with
  | nil => exact ⟨h, rfl⟩
  | cons move moves ih =>
      obtain ⟨hnext, hevents⟩ := h.step move
      obtain ⟨hend, hlater⟩ := ih hnext
      refine ⟨hend, ?_⟩
      rw [Machine.events_run_cons]
      exact List.append_eq_nil_iff.mpr ⟨hevents, hlater⟩

/-- When `main` returns there has been a signal, the worker of the event loop
has left it and `serve_forever` has returned; no callback is made and no client
is served from then on. -/
theorem exits_last {order : ShutdownOrder} {status : KernelStatus}
    {moves : List KernelMove} (hexited :
      (kernelMachine.run (boot order status) moves).value.main = .exited) :
    let s := (kernelMachine.run (boot order status) moves).value
    .signal ∈ moves ∧ (∀ phase ∈ s.loop.workers, phase = .done) ∧
      s.socket.point = .stopped ∧
      ∀ later, (kernelMachine.run s later).events = [] ∧
        (kernelMachine.run s later).value.main = .exited := by
  intro s
  have hcontrolled : Controlled s := .run order status moves
  have hover := hcontrolled.over hexited
  refine ⟨(signalled_run order status moves).mp ?_, hover.loop.done, hover.status,
    fun later => ?_⟩
  · exact hcontrolled.signalled (by simp [s, hexited, MainPoint.left])
  · obtain ⟨hend, hevents⟩ := hover.run later
    exact ⟨hevents, hend.main⟩

/-! The status socket is served as long as the event loop runs. -/

theorem told_mono {s t : Kernel} (horder : t.order = s.order)
    (hleft : t.main.left ≤ s.main.left) (h : s.told = true) :
    t.told = true := by
  unfold told at *
  rw [horder]
  cases hs : s.order with
  | statusFirst | loopFirst =>
      simp only [hs, decide_eq_true_eq] at h ⊢
      exact hleft.trans h

/-- Why `serve_forever` has returned, or has not begun. -/
def Attended (s : Kernel) (moves : List KernelMove) : Prop :=
  s.main.left ≤ 9 → s.socket.point = .stopped →
    s.told = true ∨ s.opened = false ∨
      ∃ answers, .serve answers ∈ moves ∧ answers.select = .failed

/-- `serve_forever` returns where it finds the flag, or where `select` fails. -/
theorem stopped_of_serve {s : Kernel} {answers : ServeAnswers}
    (h : (s.step (.serve answers)).value.socket.point = .stopped) :
    s.socket.point = .stopped ∨ s.stopRequested = true ∨
      answers.select = .failed := by
  have hpoint : (s.step (.serve answers)).value.socket =
      (s.socket.step (s.serveMove answers)).value := rfl
  rw [hpoint] at h
  cases hold : s.socket.point with
  | stopped => exact .inl rfl
  | top =>
      simp only [serveMove, hold, StatusSocket.step] at h
      split_ifs at h with hstop
      exact .inr (.inl hstop)
  | watching watched =>
      simp only [serveMove, hold, StatusSocket.step] at h
      cases hselect : answers.select with
      | failed => exact .inr (.inr rfl)
      | interrupted | timedOut =>
          rw [hselect] at h
          contradiction
      | ready server readable =>
          rw [hselect] at h
          dsimp only at h
          split_ifs at h
  | accepting readable =>
      simp only [serveMove, hold, StatusSocket.step] at h
      split_ifs at h
  | serving readable clientFd | sweeping readable =>
      simp [serveMove, hold, StatusSocket.step] at h

/-- Once the thread of the status socket is launched, `main` leaves it alone
and only goes on. -/
theorem mainStep_frame {s : Kernel} (h : s.main.left ≤ 9) (opened : Bool) :
    (s.mainStep opened).value.socket = s.socket ∧
      (s.mainStep opened).value.opened = s.opened ∧
      (s.mainStep opened).value.main.left ≤ s.main.left := by
  unfold mainStep
  cases hmain : s.main with
  | binding | launching => simp [hmain, MainPoint.left] at h
  | starting | spawning | assigning | telling | requesting | setting =>
      exact ⟨rfl, rfl, by simp [moveLoop, MainPoint.left]⟩
  | waiting | polling =>
      dsimp only
      split_ifs
      · cases s.order <;> exact ⟨rfl, rfl, by simp [hmain, MainPoint.left]⟩
      · cases s.order <;> exact ⟨rfl, rfl, by simp [hmain, MainPoint.left]⟩
  | joining =>
      dsimp only
      split_ifs
      · exact ⟨rfl, rfl, by simp [MainPoint.left]⟩
      · exact ⟨rfl, rfl, by simp [hmain]⟩
  | exited => exact ⟨rfl, rfl, by simp [hmain]⟩

theorem Attended.step {s : Kernel} {moves : List KernelMove}
    (h : Attended s moves) (hcontrolled : Controlled s) (move : KernelMove) :
    Attended (s.step move).value (moves ++ [move]) := by
  have hkeep : ∀ {t : Kernel}, t.order = s.order → t.opened = s.opened →
      t.main.left ≤ s.main.left → s.main.left ≤ 9 →
      s.socket.point = .stopped →
      t.told = true ∨ t.opened = false ∨ ∃ answers,
        .serve answers ∈ moves ++ [move] ∧ answers.select = .failed := by
    intro t horder hopened hleft hbegun hstopped
    rcases h hbegun hstopped with htold | hclosed | ⟨answers, hmem, hfailed⟩
    · exact .inl (told_mono horder hleft htold)
    · exact .inr (.inl (hopened.trans hclosed))
    · exact .inr (.inr ⟨answers, List.mem_append_left _ hmem, hfailed⟩)
  cases move with
  | signal | elapse ns | work notified => exact hkeep rfl rfl (Nat.le_refl _)
  | main opened =>
      intro hbegun hstopped
      rcases em (s.main.left ≤ 9) with hleft | hleft
      · obtain ⟨hsocket, hopened, hle⟩ := mainStep_frame hleft opened
        exact hkeep (s.mainStep_keeps opened).1 hopened hle hleft
          (hsocket ▸ hstopped)
      · cases hmain : s.main with
        | binding =>
            simp [Kernel.step, mainStep, hmain, MainPoint.left] at hbegun
        | launching =>
            simp only [Kernel.step, mainStep, hmain, Traced.value_pure]
              at hstopped ⊢
            split_ifs at hstopped with hopened
            exact .inr (.inl (by simpa using hopened))
        | _ => exact absurd (by simp [hmain, MainPoint.left]) hleft
  | serve answers =>
      intro hbegun hstopped
      rcases stopped_of_serve hstopped with hold | hstop | hfailed
      · exact hkeep rfl rfl (Nat.le_refl _) hbegun hold
      · exact .inl (hcontrolled.told.symm.trans hstop)
      · exact .inr (.inr ⟨answers, by simp, hfailed⟩)

theorem Attended.run (order : ShutdownOrder) (status : KernelStatus)
    (moves : List KernelMove) :
    Attended (kernelMachine.run (boot order status) moves).value moves := by
  induction moves using List.reverseRecOn with
  | nil => exact fun hbegun => absurd hbegun (by simp [boot, MainPoint.left])
  | append_singleton moves move ih =>
      rw [Machine.value_run_concat]
      exact ih.step (.run order status moves) move

/-- While the event loop runs, `serve_forever` has not returned, unless the
socket is not listening, `select` has failed, or the socket is told first and
the signal has come. -/
theorem serves_while_looping {order : ShutdownOrder} {status : KernelStatus}
    {moves : List KernelMove} (hrunning :
      (kernelMachine.run (boot order status) moves).value.loop.running)
    (hstopped : (kernelMachine.run (boot order status) moves).value.socket.point =
      .stopped) :
    (kernelMachine.run (boot order status) moves).value.opened = false ∨
      (∃ answers, .serve answers ∈ moves ∧ answers.select = .failed) ∨
      order = .statusFirst ∧ .signal ∈ moves := by
  have hcontrolled := Controlled.run order status moves
  have hattended := Attended.run order status moves
  have horder := order_run order status moves
  have hsignalled := signalled_run order status moves
  generalize (kernelMachine.run (boot order status) moves).value = s at *
  have hbegun : s.main.left ≤ 9 := by
    by_contra hleft
    have hidle := hcontrolled.idle (by omega)
    rw [hidle] at hrunning
    contradiction
  rcases hattended hbegun hstopped with htold | hclosed | hfailed
  · unfold told at htold
    rw [horder] at htold
    cases order with
    | statusFirst =>
        have hleft := of_decide_eq_true htold
        have hsignal := hcontrolled.signalled (by omega)
        exact .inr (.inr ⟨rfl, hsignalled.mp hsignal⟩)
    | loopFirst =>
        have hleft := of_decide_eq_true htold
        have hended := hcontrolled.ended (by omega)
        rw [hended] at hrunning
        contradiction
  · exact .inl hclosed
  · exact .inr (.inl hfailed)

end Kernel

/-! The shutdown. -/

/-- The steps `serve_forever` needs to return, once it has been told to. -/
def ServePoint.left : ServePoint → Nat
  | .watching _ => 5
  | .accepting _ => 4
  | .serving .. => 3
  | .sweeping _ => 2
  | .top => 1
  | .stopped => 0

namespace Kernel

/-- The worker does not run before it is notified or has slept. -/
def Runnable (s : Kernel) : KernelMove → Prop
  | .work notified => s.loop.Runnable (.work 0 notified)
  | .signal | .main _ | .elapse _ | .serve _ => True

theorem Controlled.stopping {s : Kernel} (h : Controlled s)
    (hleft : s.main.left ≤ 3) : s.loop.Stopping where
  counted := h.counted
  stop := by rw [h.asked, decide_eq_true hleft]
  callers := by
    rw [h.callers]
    cases hmain : s.main with
    | spawning | assigning => simp [hmain, MainPoint.left] at hleft
    | _ => rfl
  alive := h.alive

def noClient : ServeAnswers where
  select := .timedOut
  clientFd := -1
  readings := {}
  client := {}
  recv := fun _ => none

def startUp (opened : Bool) : List KernelMove :=
  List.replicate 6 (.main opened)

def interruptedOnce : List KernelMove :=
  startUp true ++ [.serve noClient, .signal, .main true, .main true, .main true,
    .work true, .work true, .work true, .main true, .serve noClient,
    .serve noClient, .main true]

theorem interruptedOnce_exits :
    let s := (kernelMachine.run (boot .statusFirst {}) interruptedOnce).value
    .signal ∈ interruptedOnce ∧ (∀ phase ∈ s.loop.workers, phase = .done) ∧
      s.socket.point = .stopped ∧
      ∀ later, (kernelMachine.run s later).events = [] ∧
        (kernelMachine.run s later).value.main = .exited :=
  exits_last rfl

theorem startUp_unserved :
    (kernelMachine.run (boot .statusFirst {}) (startUp false)).value.opened =
        false ∨
      (∃ answers, .serve answers ∈ startUp false ∧
        answers.select = .failed) ∨
      ShutdownOrder.statusFirst = .statusFirst ∧ .signal ∈ startUp false :=
  serves_while_looping rfl rfl

end Kernel

end HeidiKernel
