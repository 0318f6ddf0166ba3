import HeidiKernel.Transition.Machine
import Mathlib.Data.List.Induction

namespace HeidiKernel

open HeidiKernel.Transition

/-! The event loop of the kernel: threads call `run` and `request_stop` while
the workers go through `tick_loop`. The steady clock counts nanoseconds. -/

/-- Where a worker is in `tick_loop`, with its last tick. -/
inductive TickPhase
  | entered
  | checking (lastTick : Nat)
  | reading (lastTick : Nat)
  | calling (lastTick : Nat)
  | waiting (lastTick deadline : Nat)
  | stopping
  | done
  deriving DecidableEq, Repr

namespace TickPhase

def alive : TickPhase → Bool
  | .done => false
  | _ => true

def isReading : TickPhase → Bool
  | .reading _ => true
  | _ => false

def lastTick? : TickPhase → Option Nat
  | .checking last | .reading last | .calling last | .waiting last _ =>
      some last
  | .entered | .stopping | .done => none

/-- The steps a worker needs to leave the loop, once it has been asked to. -/
def left : TickPhase → Nat
  | .reading _ => 5
  | .calling _ => 4
  | .waiting .. => 3
  | .entered => 3
  | .checking _ => 2
  | .stopping => 1
  | .done => 0

end TickPhase

/-- Where a caller of `run` is: it has set the flag, or started the thread. -/
inductive RunPhase
  | exchanged
  | spawned
  deriving DecidableEq, Repr

structure EventLoop where
  tickInterval : Int
  running : Bool := false
  stopRequested : Bool := false
  callers : List RunPhase := []
  joinable : Bool := false
  workers : List TickPhase := []
  nowNs : Nat := 0
  terminated : Bool := false
  deriving DecidableEq, Repr

/-- A call of `run` by any thread and its two further steps, those of the other
calls, and the steps of the workers. -/
inductive LoopMove
  | run
  | spawn (caller : Nat)
  | assign (caller : Nat)
  | requestStop
  | elapse (ns : Nat)
  | work (worker : Nat) (notified : Bool)
  deriving DecidableEq, Repr

inductive LoopEvent
  | started (worker nowNs : Nat)
  | ticked (worker elapsedMs nowNs : Nat)
  deriving DecidableEq, Repr

/-- A step of the first worker. -/
def LoopMove.isWork : LoopMove → Bool
  | .work 0 _ => true
  | _ => false

def LoopEvent.isTicked : LoopEvent → Bool
  | .ticked .. => true
  | .started .. => false

namespace EventLoop

def nsPerMs : Nat := 1000000

def waitNs : Nat := 10 * nsPerMs

def goto (worker : Nat) (phase : TickPhase) (s : EventLoop) : EventLoop :=
  { s with workers := s.workers.set worker phase }

/-- One step of a worker. It sleeps until it is notified of the stop, or for
ten milliseconds. -/
def work (worker : Nat) (notified : Bool) (s : EventLoop) :
    Traced LoopEvent EventLoop :=
  match s.workers[worker]? with
  | some .entered => do
      Traced.log (.started worker s.nowNs)
      pure (s.goto worker (.checking s.nowNs))
  | some (.checking last) =>
      pure (s.goto worker
        (if s.stopRequested then .stopping else .reading last))
  | some (.reading last) =>
      let elapsed := (s.nowNs - last) / nsPerMs
      if s.tickInterval ≤ elapsed then do
        Traced.log (.ticked worker elapsed s.nowNs)
        pure (s.goto worker (.calling s.nowNs))
      else
        pure (s.goto worker (.waiting last (s.nowNs + waitNs)))
  | some (.calling last) =>
      pure (s.goto worker (.waiting last (s.nowNs + waitNs)))
  | some (.waiting last deadline) =>
      if (notified && s.stopRequested) || deadline ≤ s.nowNs then
        pure (s.goto worker (.checking last))
      else
        pure s
  | some .stopping => pure { s.goto worker .done with running := false }
  | some .done | none => pure s

def spawn (caller : Nat) (s : EventLoop) : EventLoop :=
  { s with
    workers := s.workers ++ [.entered]
    callers := s.callers.set caller .spawned }

/-- A thread assigned over one that was not joined terminates the program. -/
def assign (caller : Nat) (s : EventLoop) : EventLoop :=
  let callers := s.callers.eraseIdx caller
  if s.joinable then
    { s with terminated := true, callers }
  else
    { s with joinable := true, callers }

/-- Any number of threads may be inside `run`. A call that finds the loop
running returns at once. -/
def step (s : EventLoop) (move : LoopMove) : Traced LoopEvent EventLoop :=
  if s.terminated then
    pure s
  else
    match move with
    | .run =>
        if s.running then
          pure s
        else
          pure { s with
            running := true
            callers := s.callers ++ [.exchanged] }
    | .spawn caller =>
        if s.callers[caller]? = some .exchanged then
          pure (s.spawn caller)
        else
          pure s
    | .assign caller =>
        if s.callers[caller]? = some .spawned then
          pure (s.assign caller)
        else
          pure s
    | .requestStop => pure { s with stopRequested := true }
    | .elapse ns => pure { s with nowNs := s.nowNs + ns }
    | .work worker notified => s.work worker notified

end EventLoop

def loopMachine : Machine EventLoop LoopMove LoopEvent where
  step := EventLoop.step

namespace EventLoop

/-- What a step can do. -/
inductive Stepped (s : EventLoop) : Traced LoopEvent EventLoop → Prop
  | idle : Stepped s (pure s)
  | called (halive : s.terminated = false) (hrunning : s.running = false) :
      Stepped s (pure { s with
        running := true
        callers := s.callers ++ [.exchanged] })
  | spawned {caller : Nat} (halive : s.terminated = false)
      (hcaller : s.callers[caller]? = some .exchanged) :
      Stepped s (pure (s.spawn caller))
  | assigned {caller : Nat} (halive : s.terminated = false)
      (hcaller : s.callers[caller]? = some .spawned) :
      Stepped s (pure (s.assign caller))
  | stopped : Stepped s (pure { s with stopRequested := true })
  | elapsed (ns : Nat) : Stepped s (pure { s with nowNs := s.nowNs + ns })
  | worked (worker : Nat) (notified : Bool) :
      Stepped s (s.work worker notified)

theorem stepped (s : EventLoop) (move : LoopMove) :
    Stepped s (s.step move) := by
  unfold step
  split
  · exact .idle
  · rename_i hterminated
    have halive : s.terminated = false := Bool.eq_false_iff.mpr hterminated
    cases move with
    | run =>
        dsimp only
        split
        · exact .idle
        · rename_i hrunning
          exact .called halive (Bool.eq_false_iff.mpr hrunning)
    | spawn caller =>
        dsimp only
        split
        · rename_i hcaller
          exact .spawned halive hcaller
        · exact .idle
    | assign caller =>
        dsimp only
        split
        · rename_i hcaller
          exact .assigned halive hcaller
        · exact .idle
    | requestStop => exact .stopped
    | elapse ns => exact .elapsed ns
    | work worker notified => exact .worked worker notified

/-- What the assignment leaves alone, and what it does to the flag of the
thread. -/
theorem assign_eq (caller : Nat) (s : EventLoop) :
    s.assign caller = { s with
      joinable := true
      terminated := s.terminated || s.joinable
      callers := s.callers.eraseIdx caller } := by
  unfold assign
  cases hjoinable : s.joinable with
  | true => simp
  | false => simp

/-! The flag counts the loops: the one that is about to start and those that
have not ended. -/

structure Counted (s : EventLoop) : Prop where
  alive : s.workers.countP TickPhase.alive + s.callers.count .exchanged =
    s.running.toNat
  spawned : s.workers.length = s.joinable.toNat +
    s.callers.count .spawned + s.terminated.toNat
  terminated : s.terminated → s.joinable

/-! A caller that goes on, or that leaves. -/

theorem count_set_caller {callers : List RunPhase} {caller : Nat}
    (h : callers[caller]? = some .exchanged) :
    (callers.set caller .spawned).count .exchanged + 1 =
        callers.count .exchanged ∧
      (callers.set caller .spawned).count .spawned =
        callers.count .spawned + 1 := by
  induction callers generalizing caller with
  | nil => simp at h
  | cons phase callers ih =>
      cases caller with
      | zero =>
          obtain rfl : phase = .exchanged := by simpa using h
          simp
      | succ caller =>
          obtain ⟨hleft, hcame⟩ := ih (by simpa using h)
          rw [List.set_cons_succ]
          simp only [List.count_cons]
          omega

theorem count_erase_caller {callers : List RunPhase} {caller : Nat}
    (h : callers[caller]? = some .spawned) :
    (callers.eraseIdx caller).count .exchanged = callers.count .exchanged ∧
      (callers.eraseIdx caller).count .spawned + 1 =
        callers.count .spawned := by
  induction callers generalizing caller with
  | nil => simp at h
  | cons phase callers ih =>
      cases caller with
      | zero =>
          obtain rfl : phase = .spawned := by simpa using h
          simp
      | succ caller =>
          obtain ⟨hstays, hleft⟩ := ih (by simpa using h)
          rw [List.eraseIdx_cons_succ]
          simp only [List.count_cons]
          omega

theorem countP_set_same {α : Type*} {p : α → Bool} {xs : List α} {i : Nat}
    {old new : α} (hold : xs[i]? = some old) (hsame : p new = p old) :
    (xs.set i new).countP p = xs.countP p := by
  obtain ⟨hlength, hget⟩ := List.getElem?_eq_some_iff.mp hold
  rw [List.countP_set hlength, hget, hsame]
  split_ifs with hp
  · have hpos : 0 < xs.countP p :=
      List.countP_pos_iff.mpr ⟨old, List.mem_of_getElem? hold, hp⟩
    omega
  · rfl

namespace Counted

variable {s : EventLoop}

theorem init (tickInterval : Int) : Counted { tickInterval } where
  alive := rfl
  spawned := rfl
  terminated h := by contradiction

theorem goto (h : Counted s) {worker : Nat} {old phase : TickPhase}
    (hworker : s.workers[worker]? = some old) (halive : old.alive = true)
    (hphase : phase.alive = true) : Counted (s.goto worker phase) where
  alive := by
    change (s.workers.set worker phase).countP TickPhase.alive + _ = _
    rw [countP_set_same hworker (hphase.trans halive.symm)]
    exact h.alive
  spawned := by
    change (s.workers.set worker phase).length = _
    rw [List.length_set]
    exact h.spawned
  terminated := h.terminated

theorem leave (h : Counted s) {worker : Nat}
    (hworker : s.workers[worker]? = some .stopping) :
    Counted { s.goto worker .done with running := false } where
  alive := by
    obtain ⟨hlength, hget⟩ := List.getElem?_eq_some_iff.mp hworker
    have hset : (s.workers.set worker .done).countP TickPhase.alive =
        s.workers.countP TickPhase.alive - 1 := by
      rw [List.countP_set hlength, hget]
      rfl
    have hcounted := h.alive
    have hflag := Bool.toNat_le s.running
    change (s.workers.set worker .done).countP TickPhase.alive +
      s.callers.count .exchanged = 0
    have hpos : 0 < s.workers.countP TickPhase.alive :=
      List.countP_pos_iff.mpr ⟨_, List.mem_of_getElem? hworker, rfl⟩
    rw [hset]
    omega
  spawned := by
    change (s.workers.set worker .done).length = _
    rw [List.length_set]
    exact h.spawned
  terminated := h.terminated

theorem work (h : Counted s) (worker : Nat) (notified : Bool) :
    Counted (s.work worker notified).value := by
  unfold EventLoop.work
  cases hworker : s.workers[worker]? with
  | none => exact h
  | some phase =>
      cases phase with
      | entered => exact h.goto hworker rfl rfl
      | checking last =>
          apply h.goto hworker rfl
          split_ifs <;> rfl
      | reading last =>
          dsimp only
          split_ifs
          · exact h.goto hworker rfl rfl
          · exact h.goto hworker rfl rfl
      | calling last => exact h.goto hworker rfl rfl
      | waiting last deadline =>
          dsimp only
          split_ifs
          · exact h.goto hworker rfl rfl
          · exact h
      | stopping => exact h.leave hworker
      | done => exact h

theorem spawn (h : Counted s) {caller : Nat}
    (hcaller : s.callers[caller]? = some .exchanged) :
    Counted (s.spawn caller) := by
  have halive := h.alive
  have hspawned := h.spawned
  obtain ⟨hexchanged, hcount⟩ := count_set_caller hcaller
  refine ⟨?_, ?_, h.terminated⟩
  · have hentered : (s.workers ++ [TickPhase.entered]).countP TickPhase.alive =
        s.workers.countP TickPhase.alive + 1 := List.countP_append
    change (s.workers ++ [TickPhase.entered]).countP TickPhase.alive +
      (s.callers.set caller .spawned).count .exchanged = s.running.toNat
    omega
  · change (s.workers ++ [TickPhase.entered]).length = s.joinable.toNat +
      (s.callers.set caller .spawned).count .spawned + s.terminated.toNat
    rw [List.length_append, List.length_singleton]
    omega

theorem assign (h : Counted s) {caller : Nat} (halive : s.terminated = false)
    (hcaller : s.callers[caller]? = some .spawned) :
    Counted (s.assign caller) := by
  have hcounted := h.alive
  have hspawned := h.spawned
  obtain ⟨hexchanged, hcount⟩ := count_erase_caller hcaller
  rw [assign_eq]
  refine ⟨?_, ?_, fun _ => rfl⟩
  · change s.workers.countP TickPhase.alive +
      (s.callers.eraseIdx caller).count .exchanged = s.running.toNat
    omega
  · change s.workers.length = 1 +
      (s.callers.eraseIdx caller).count .spawned +
        (s.terminated || s.joinable).toNat
    rw [halive] at hspawned ⊢
    rw [Bool.false_or]
    simp only [Bool.toNat_false] at hspawned
    omega

theorem step (h : Counted s) (move : LoopMove) :
    Counted (s.step move).value := by
  have hstepped := s.stepped move
  generalize s.step move = next at hstepped
  have halive := h.alive
  have hspawned := h.spawned
  cases hstepped with
  | idle => exact h
  | called hterminated hrunning =>
      refine ⟨?_, ?_, h.terminated⟩
      · simpa [hrunning, ← Nat.add_assoc] using halive
      · simpa using hspawned
  | spawned hterminated hcaller => exact h.spawn hcaller
  | assigned hterminated hcaller => exact h.assign hterminated hcaller
  | stopped => exact ⟨h.alive, h.spawned, h.terminated⟩
  | elapsed ns => exact ⟨h.alive, h.spawned, h.terminated⟩
  | worked worker notified => exact h.work worker notified

theorem run (tickInterval : Int) (moves : List LoopMove) :
    Counted (loopMachine.run { tickInterval } moves).value :=
  Machine.invariant_run (m := loopMachine) (I := Counted)
    (fun _ move h => h.step move) (init tickInterval) moves

theorem running_iff (h : Counted s) :
    s.running = false ↔ .exchanged ∉ s.callers ∧
      ∀ phase ∈ s.workers, phase = .done := by
  have hcounted := h.alive
  have hdone : s.workers.countP TickPhase.alive = 0 ↔
      ∀ phase ∈ s.workers, phase = .done := by
    rw [List.countP_eq_zero]
    refine forall₂_congr fun phase _ => ?_
    cases phase <;> simp [TickPhase.alive]
  rw [← hdone, ← List.count_eq_zero]
  cases hrunning : s.running with
  | false =>
      rw [hrunning, Bool.toNat_false] at hcounted
      refine iff_of_true rfl ?_
      omega
  | true =>
      rw [hrunning, Bool.toNat_true] at hcounted
      refine iff_of_false (by simp) ?_
      omega

end Counted

/-- `is_running` is false exactly if no call of `run` is about to start a
thread and every thread has left the loop; there is never more than one in it,
whoever calls `run`. -/
theorem isRunning_iff (tickInterval : Int) (moves : List LoopMove) :
    let s := (loopMachine.run { tickInterval } moves).value
    (s.running = false ↔ .exchanged ∉ s.callers ∧
        ∀ phase ∈ s.workers, phase = .done) ∧
      s.workers.countP TickPhase.alive ≤ 1 := by
  intro s
  have hcounted : Counted s := Counted.run tickInterval moves
  have halive := hcounted.alive
  have hflag := Bool.toNat_le s.running
  exact ⟨hcounted.running_iff, by omega⟩

/-! The time that is told to the callback. -/

/-- When a worker started and when it last ticked, if it has ticked, and what
its ticks have told. -/
structure Account where
  start : Nat := 0
  last : Nat := 0
  told : Nat := 0
  ticks : Nat := 0
  deriving DecidableEq, Repr

def Account.after (worker : Nat) (account : Account) : LoopEvent → Account
  | .started other nowNs =>
      if other = worker then { start := nowNs, last := nowNs } else account
  | .ticked other elapsedMs nowNs =>
      if other = worker then
        { account with
          last := nowNs
          told := account.told + elapsedMs
          ticks := account.ticks + 1 }
      else account

def account (worker : Nat) (history : List LoopEvent) : Account :=
  history.foldl (Account.after worker) {}

theorem account_concat (worker : Nat) (history : List LoopEvent)
    (event : LoopEvent) : account worker (history ++ [event]) =
      (account worker history).after worker event :=
  List.foldl_concat ..

/-- The ticks tell the time up to the last of them, each of them all but a part
of a millisecond. -/
structure Spent (a : Account) : Prop where
  le : a.start + a.told * nsPerMs ≤ a.last
  lt : a.last + a.ticks ≤ a.start + (a.told + a.ticks) * nsPerMs

theorem Spent.tick {a : Account} {nowNs : Nat} (h : Spent a)
    (hnow : a.last ≤ nowNs) :
    Spent
      { a with
        last := nowNs
        told := a.told + (nowNs - a.last) / nsPerMs
        ticks := a.ticks + 1 } := by
  obtain ⟨hle, hlt⟩ := h
  have hlow := Nat.div_mul_le_self (nowNs - a.last) nsPerMs
  have hhigh := Nat.lt_div_mul_add (a := nowNs - a.last)
    (show 0 < nsPerMs by decide)
  generalize (nowNs - a.last) / nsPerMs = elapsed at hlow hhigh
  constructor
  · change a.start + (a.told + elapsed) * nsPerMs ≤ nowNs
    rw [Nat.add_mul]
    omega
  · change nowNs + (a.ticks + 1) ≤
      a.start + (a.told + elapsed + (a.ticks + 1)) * nsPerMs
    rw [Nat.add_mul] at hlt
    simp only [Nat.add_mul, Nat.one_mul]
    omega

/-- What a tick is told: the whole milliseconds since the tick before it, or
since the start, and no less than the interval. -/
structure Told (tickInterval : Int) (before : Account)
    (elapsedMs nowNs : Nat) : Prop where
  le : before.last ≤ nowNs
  eq : elapsedMs = (nowNs - before.last) / nsPerMs
  interval : tickInterval ≤ elapsedMs

def Accounted (tickInterval : Int) (history : List LoopEvent) :
    LoopEvent → Prop
  | .started .. => True
  | .ticked worker elapsedMs nowNs =>
      Told tickInterval (account worker history) elapsedMs nowNs ∧
        Spent ((account worker history).after worker
          (.ticked worker elapsedMs nowNs))

structure Timed (tickInterval : Int) (s : EventLoop)
    (history : List LoopEvent) : Prop where
  interval : s.tickInterval = tickInterval
  spent : ∀ worker phase last, s.workers[worker]? = some phase →
    phase.lastTick? = some last →
      last ≤ s.nowNs ∧ (account worker history).last = last ∧
        Spent (account worker history)
  recorded : Recorded (Accounted tickInterval) history

namespace Timed

variable {tickInterval : Int} {s : EventLoop} {history : List LoopEvent}

theorem init : Timed tickInterval { tickInterval } [] where
  interval := rfl
  spent _ _ _ hworker := by simp at hworker
  recorded := .nil

theorem goto (h : Timed tickInterval s history) {worker : Nat}
    {old phase : TickPhase} (hworker : s.workers[worker]? = some old)
    (hphase : ∀ last, phase.lastTick? = some last →
      old.lastTick? = some last) :
    Timed tickInterval (s.goto worker phase) (history ++ []) where
  interval := h.interval
  spent other found last hfound hlast := by
    rw [List.append_nil]
    obtain ⟨hlength, -⟩ := List.getElem?_eq_some_iff.mp hworker
    change (s.workers.set worker phase)[other]? = some found at hfound
    rcases eq_or_ne worker other with rfl | hne
    · rw [List.getElem?_set_self hlength] at hfound
      obtain rfl : phase = found := Option.some.inj hfound
      exact h.spent worker old last hworker (hphase last hlast)
    · rw [List.getElem?_set_ne hne] at hfound
      exact h.spent other found last hfound hlast
  recorded := by
    rw [List.append_nil]
    exact h.recorded

theorem log (h : Timed tickInterval s history) {worker : Nat}
    {old phase : TickPhase} (hworker : s.workers[worker]? = some old)
    (hphase : phase.lastTick? = some s.nowNs) {event : LoopEvent}
    (hothers : ∀ other, other ≠ worker → ∀ a : Account,
      a.after other event = a)
    (hlast : ((account worker history).after worker event).last = s.nowNs)
    (hspent : Spent ((account worker history).after worker event))
    (hevent : Accounted tickInterval history event) :
    Timed tickInterval (s.goto worker phase) (history ++ [event]) where
  interval := h.interval
  spent other found last hfound hticked := by
    obtain ⟨hlength, -⟩ := List.getElem?_eq_some_iff.mp hworker
    change (s.workers.set worker phase)[other]? = some found at hfound
    rw [account_concat]
    rcases eq_or_ne worker other with rfl | hne
    · rw [List.getElem?_set_self hlength] at hfound
      obtain rfl : phase = found := Option.some.inj hfound
      obtain rfl : s.nowNs = last :=
        Option.some.inj (hphase.symm.trans hticked)
      exact ⟨Nat.le_refl _, hlast, hspent⟩
    · rw [List.getElem?_set_ne hne] at hfound
      rw [hothers other hne.symm]
      exact h.spent other found last hfound hticked
  recorded := h.recorded.concat hevent

theorem work (h : Timed tickInterval s history) (worker : Nat)
    (notified : Bool) : Timed tickInterval (s.work worker notified).value
      (history ++ (s.work worker notified).events) := by
  have hidle : Timed tickInterval s (history ++ []) := by
    rwa [List.append_nil]
  unfold EventLoop.work
  cases hworker : s.workers[worker]? with
  | none => exact hidle
  | some phase =>
      cases phase with
      | entered =>
          apply h.log hworker rfl
          · exact fun other hne a => if_neg hne.symm
          · rw [Account.after, if_pos rfl]
          · rw [Account.after, if_pos rfl]
            exact ⟨by simp, by simp⟩
          · trivial
      | checking last =>
          apply h.goto hworker
          intro other hother
          split_ifs at hother
          · contradiction
          · exact hother
      | reading last =>
          obtain ⟨hpast, hlast, hbefore⟩ := h.spent worker _ last hworker rfl
          subst hlast
          dsimp only
          split_ifs with hinterval
          · have hspent := hbefore.tick hpast
            rw [h.interval] at hinterval
            have hafter : (account worker history).after worker
                (.ticked worker
                  ((s.nowNs - (account worker history).last) / nsPerMs)
                  s.nowNs) = _ :=
              if_pos rfl
            apply h.log hworker rfl
            · exact fun other hne a => if_neg hne.symm
            · rw [hafter]
            · rw [hafter]
              exact hspent
            · refine ⟨⟨hpast, rfl, hinterval⟩, ?_⟩
              rw [hafter]
              exact hspent
          · exact h.goto hworker fun _ hother => hother
      | calling last => exact h.goto hworker fun _ hother => hother
      | waiting last deadline =>
          dsimp only
          split_ifs
          · exact h.goto hworker fun _ hother => hother
          · exact hidle
      | stopping =>
          have hleft : Timed tickInterval (s.goto worker .done)
              (history ++ []) :=
            h.goto hworker fun _ hother => nomatch hother
          exact ⟨hleft.interval, hleft.spent, hleft.recorded⟩
      | done => exact hidle

theorem step (h : Timed tickInterval s history) (move : LoopMove) :
    Timed tickInterval (s.step move).value
      (history ++ (s.step move).events) := by
  have hidle : Timed tickInterval s (history ++ []) := by
    rwa [List.append_nil]
  have hstepped := s.stepped move
  generalize s.step move = next at hstepped
  cases hstepped with
  | idle => exact hidle
  | spawned hterminated hcaller =>
      refine ⟨hidle.interval, ?_, hidle.recorded⟩
      intro worker phase last hworker hlast
      change (s.workers ++ [.entered])[worker]? = some phase at hworker
      rcases Nat.lt_or_ge worker s.workers.length with hold | hnew
      · rw [List.getElem?_append_left hold] at hworker
        exact hidle.spent worker phase last hworker hlast
      · rw [List.getElem?_append_right hnew] at hworker
        obtain rfl : phase = .entered :=
          List.mem_singleton.mp (List.mem_of_getElem? hworker)
        contradiction
  | elapsed ns =>
      refine ⟨hidle.interval, ?_, hidle.recorded⟩
      intro worker phase last hworker hlast
      obtain ⟨hle, hsince⟩ := hidle.spent worker phase last hworker hlast
      exact ⟨Nat.le_trans hle (Nat.le_add_right _ _), hsince⟩
  | worked worker notified => exact h.work worker notified
  | called => exact ⟨hidle.interval, hidle.spent, hidle.recorded⟩
  | assigned =>
      rw [assign_eq]
      exact ⟨hidle.interval, hidle.spent, hidle.recorded⟩
  | stopped => exact ⟨hidle.interval, hidle.spent, hidle.recorded⟩

theorem run (tickInterval : Int) (moves : List LoopMove) :
    Timed tickInterval (loopMachine.run { tickInterval } moves).value
      (loopMachine.run { tickInterval } moves).events :=
  Machine.history_run (m := loopMachine) (I := Timed tickInterval)
    (fun _ _ move h => h.step move) init moves

end Timed

/-- Every tick is told the whole milliseconds since the one before it, so that
all of them tell the time up to the last one less than a millisecond for each,
and there is no more than one tick for each interval told. -/
theorem ticks_accounted (tickInterval : Int) (moves : List LoopMove) :
    let events := (loopMachine.run { tickInterval } moves).events
    Recorded (Accounted tickInterval) events ∧
      ∀ worker, (account worker events).ticks * tickInterval ≤
        (account worker events).told := by
  intro events
  have hrecorded := (Timed.run tickInterval moves).recorded
  refine ⟨hrecorded, fun worker => ?_⟩
  change Recorded (Accounted tickInterval) events at hrecorded
  generalize events = history at hrecorded
  induction history using List.reverseRecOn with
  | nil => simp [account]
  | append_singleton history event ih =>
      obtain ⟨hhistory, hevent⟩ := hrecorded.of_concat
      have hold := ih hhistory
      rw [account_concat]
      cases event with
      | started other nowNs =>
          unfold Account.after
          dsimp only
          split_ifs
          · simp
          · exact hold
      | ticked other elapsedMs nowNs =>
          unfold Account.after
          dsimp only
          split_ifs
          · have hinterval := hevent.1.interval
            push_cast
            rw [Int.add_mul, Int.one_mul]
            omega
          · exact hold

/-! The end of the loop. -/

theorem reading_goto {s : EventLoop} {worker : Nat} {old phase : TickPhase}
    (hworker : s.workers[worker]? = some old)
    (hsame : phase.isReading = old.isReading) :
    (s.goto worker phase).workers.countP TickPhase.isReading =
      s.workers.countP TickPhase.isReading :=
  countP_set_same hworker hsame

theorem reading_leave {s : EventLoop} {worker last : Nat} {phase : TickPhase}
    (hworker : s.workers[worker]? = some (.reading last))
    (hphase : phase.isReading = false) :
    1 + (s.goto worker phase).workers.countP TickPhase.isReading =
      s.workers.countP TickPhase.isReading := by
  obtain ⟨hlength, hget⟩ := List.getElem?_eq_some_iff.mp hworker
  have hpos : 0 < s.workers.countP TickPhase.isReading :=
    List.countP_pos_iff.mpr ⟨_, List.mem_of_getElem? hworker, rfl⟩
  change 1 + (s.workers.set worker phase).countP TickPhase.isReading = _
  rw [List.countP_set hlength, hget, hphase]
  simp only [TickPhase.isReading, if_true, Bool.false_eq_true, if_false]
  omega

theorem ticked_work {s : EventLoop} (hstop : s.stopRequested = true)
    (worker : Nat) (notified : Bool) :
    (s.work worker notified).value.stopRequested = true ∧
      (s.work worker notified).events.countP LoopEvent.isTicked +
          (s.work worker notified).value.workers.countP TickPhase.isReading ≤
        s.workers.countP TickPhase.isReading := by
  have hquiet : ∀ {old phase : TickPhase} {events : List LoopEvent},
      s.workers[worker]? = some old → phase.isReading = old.isReading →
      events.countP LoopEvent.isTicked = 0 →
        events.countP LoopEvent.isTicked +
            (s.goto worker phase).workers.countP TickPhase.isReading ≤
          s.workers.countP TickPhase.isReading := by
    intro old phase events hworker hsame hevents
    rw [hevents, Nat.zero_add]
    exact Nat.le_of_eq (reading_goto hworker hsame)
  unfold EventLoop.work
  cases hworker : s.workers[worker]? with
  | none => exact ⟨hstop, by simp⟩
  | some phase =>
      cases phase with
      | entered => exact ⟨hstop, hquiet hworker rfl rfl⟩
      | checking last =>
          rw [hstop]
          exact ⟨hstop, hquiet hworker rfl rfl⟩
      | reading last =>
          dsimp only
          split_ifs
          · refine ⟨hstop, Nat.le_of_eq ?_⟩
            exact reading_leave hworker rfl
          · refine ⟨hstop, Nat.le_trans (Nat.add_le_add_right ?_ _)
              (Nat.le_of_eq (reading_leave hworker ?_))⟩
            · exact Nat.zero_le 1
            · rfl
      | calling last => exact ⟨hstop, hquiet hworker rfl rfl⟩
      | waiting last deadline =>
          dsimp only
          split_ifs
          · exact ⟨hstop, hquiet hworker rfl rfl⟩
          · exact ⟨hstop, by simp⟩
      | stopping => exact ⟨hstop, hquiet hworker rfl rfl⟩
      | done => exact ⟨hstop, by simp⟩

/-- After a request to stop, only a worker that has already seen that there was
none can tick. -/
theorem ticked_step {s : EventLoop} (hstop : s.stopRequested = true)
    (move : LoopMove) :
    (s.step move).value.stopRequested = true ∧
      (s.step move).events.countP LoopEvent.isTicked +
          (s.step move).value.workers.countP TickPhase.isReading ≤
        s.workers.countP TickPhase.isReading := by
  have hstepped := s.stepped move
  generalize s.step move = next at hstepped
  cases hstepped with
  | idle => exact ⟨hstop, by simp⟩
  | called => exact ⟨hstop, by simp⟩
  | spawned => exact ⟨hstop, by simp [spawn, TickPhase.isReading]⟩
  | assigned =>
      rw [assign_eq]
      exact ⟨hstop, by simp⟩
  | stopped => exact ⟨rfl, by simp⟩
  | elapsed ns => exact ⟨hstop, by simp⟩
  | worked worker notified => exact ticked_work hstop worker notified

theorem ticked_run {s : EventLoop} (hstop : s.stopRequested = true)
    (moves : List LoopMove) :
    (loopMachine.run s moves).events.countP LoopEvent.isTicked ≤
      s.workers.countP TickPhase.isReading := by
  induction moves generalizing s with
  | nil => exact Nat.zero_le _
  | cons move moves ih =>
      obtain ⟨hnext, hle⟩ := ticked_step hstop move
      have hrest := ih hnext
      rw [Machine.events_run_cons, List.countP_append]
      change (s.step move).events.countP _ +
        (loopMachine.run (s.step move).value moves).events.countP _ ≤ _
      omega

theorem run_terminated {s : EventLoop} (h : s.terminated = true)
    (moves : List LoopMove) : loopMachine.run s moves = pure s := by
  induction moves with
  | nil => rfl
  | cons move moves ih =>
      have hstep : loopMachine.step s move = pure s := if_pos h
      rw [Machine.run, hstep]
      exact ih

theorem requestStop_eq {s : EventLoop} (h : s.terminated = false) :
    loopMachine.step s .requestStop =
      pure { s with stopRequested := true } :=
  if_neg (by simp [h])

/-- However the threads interleave, there is at most one more tick once the
loop is asked to stop. -/
theorem one_tick_after_stop (tickInterval : Int)
    (before after : List LoopMove) :
    let stopped := loopMachine.run { tickInterval } (before ++ [.requestStop])
    (loopMachine.run stopped.value after).events.countP LoopEvent.isTicked ≤
      1 := by
  intro stopped
  have hcounted : Counted stopped.value := Counted.run tickInterval _
  have hvalue : stopped.value = (loopMachine.step
      (loopMachine.run { tickInterval } before).value .requestStop).value :=
    Machine.value_run_concat ..
  generalize (loopMachine.run { tickInterval } before).value = s at hvalue
  cases hterminated : s.terminated with
  | true =>
      have hsame : stopped.value = s :=
        hvalue.trans (congrArg Traced.value (if_pos hterminated))
      rw [hsame, run_terminated hterminated]
      exact Nat.zero_le _
  | false =>
      rw [requestStop_eq hterminated] at hvalue
      have hticked := ticked_run (s := stopped.value)
        (congrArg EventLoop.stopRequested hvalue) after
      have hreading : stopped.value.workers.countP TickPhase.isReading ≤
          stopped.value.workers.countP TickPhase.alive := by
        apply List.countP_mono_left
        intro phase _ hphase
        cases phase with
        | reading last => rfl
        | _ => contradiction
      have halive := hcounted.alive
      have hflag := Bool.toNat_le stopped.value.running
      omega

/-- Nobody is inside `run`, so there is at most one worker. -/
structure Stopping (s : EventLoop) : Prop where
  counted : Counted s
  stop : s.stopRequested = true
  callers : s.callers = []
  alive : s.terminated = false

def leftToDo (s : EventLoop) : Nat :=
  (s.workers[0]?).elim 0 TickPhase.left

theorem leftToDo_le (s : EventLoop) : s.leftToDo ≤ 5 := by
  unfold leftToDo
  cases s.workers[0]? with
  | none => exact Nat.zero_le 5
  | some phase => cases phase <;> simp [TickPhase.left]

/-- The loop is not started anew, and the worker does not run before it is
notified or the ten milliseconds are over. -/
def Runnable (s : EventLoop) : LoopMove → Prop
  | .run => False
  | .work worker notified => ∀ last deadline,
      s.workers[worker]? = some (.waiting last deadline) →
        notified = true ∨ deadline ≤ s.nowNs
  | .spawn _ | .assign _ | .requestStop | .elapse _ => True

/-- A worker never sets the flag, and nothing else but the workers changes. -/
theorem work_frame (s : EventLoop) (worker : Nat) (notified : Bool) :
    (s.work worker notified).value = { s with
      workers := (s.work worker notified).value.workers
      running := (s.work worker notified).value.running } ∧
      (s.running = false → (s.work worker notified).value.running = false) := by
  unfold EventLoop.work
  cases s.workers[worker]? with
  | none => exact ⟨rfl, id⟩
  | some phase =>
      cases phase with
      | reading last =>
          dsimp only
          split_ifs <;> exact ⟨rfl, id⟩
      | waiting last deadline =>
          dsimp only
          split_ifs <;> exact ⟨rfl, id⟩
      | stopping => exact ⟨rfl, fun _ => rfl⟩
      | _ => exact ⟨rfl, id⟩

namespace Stopping

variable {s : EventLoop}

theorem length_le (h : Stopping s) : s.workers.length ≤ 1 := by
  have hspawned := h.counted.spawned
  have hflag := Bool.toNat_le s.joinable
  rw [h.callers, h.alive] at hspawned
  simp at hspawned
  omega

theorem running_eq (h : Stopping s) (hleft : s.leftToDo = 0) :
    s.running = false := by
  refine h.counted.running_iff.mpr ⟨by simp [h.callers], fun phase hphase => ?_⟩
  have hlength := h.length_le
  obtain ⟨i, hi, rfl⟩ := List.getElem_of_mem hphase
  obtain rfl : i = 0 := by omega
  rw [leftToDo, List.getElem?_eq_getElem hi] at hleft
  cases hfirst : s.workers[0] with
  | done => rfl
  | _ =>
      rw [hfirst] at hleft
      contradiction

theorem leftToDo_goto {old : TickPhase} (hfirst : s.workers[0]? = some old)
    (phase : TickPhase) : (s.goto 0 phase).leftToDo = phase.left := by
  obtain ⟨hlength, -⟩ := List.getElem?_eq_some_iff.mp hfirst
  change ((s.workers.set 0 phase)[0]?).elim 0 TickPhase.left = _
  rw [List.getElem?_set_self hlength]
  rfl

theorem leftToDo_work (hstop : s.stopRequested = true) {notified : Bool}
    (hrunnable : s.Runnable (.work 0 notified)) :
    (s.work 0 notified).value.leftToDo < s.leftToDo ∨
      (s.work 0 notified).value.leftToDo = 0 := by
  have hlower : ∀ {old phase : TickPhase}, s.workers[0]? = some old →
      phase.left < old.left → (s.goto 0 phase).leftToDo < s.leftToDo := by
    intro old phase hfirst hless
    rw [leftToDo_goto hfirst, leftToDo, hfirst]
    exact hless
  unfold EventLoop.work
  cases hfirst : s.workers[0]? with
  | none =>
      right
      simp [leftToDo, hfirst]
  | some phase =>
      cases phase with
      | entered => exact .inl (hlower hfirst (by simp [TickPhase.left]))
      | checking last =>
          rw [hstop]
          exact .inl (hlower hfirst (by simp [TickPhase.left]))
      | reading last =>
          dsimp only
          split_ifs
          · exact .inl (hlower hfirst (by simp [TickPhase.left]))
          · exact .inl (hlower hfirst (by simp [TickPhase.left]))
      | calling last => exact .inl (hlower hfirst (by simp [TickPhase.left]))
      | waiting last deadline =>
          have hover := hrunnable last deadline hfirst
          dsimp only
          rw [if_pos (by simpa [hstop] using hover)]
          exact .inl (hlower hfirst (by simp [TickPhase.left]))
      | stopping => exact .inr (leftToDo_goto hfirst .done)
      | done =>
          right
          simp [leftToDo, hfirst, TickPhase.left]

theorem work (h : Stopping s) (worker : Nat) (notified : Bool) :
    Stopping (s.work worker notified).value := by
  have hcounted := h.counted.work worker notified
  rw [(work_frame s worker notified).1] at hcounted ⊢
  exact ⟨hcounted, h.stop, h.callers, h.alive⟩

theorem work_other (h : Stopping s) {worker : Nat} (hne : worker ≠ 0)
    (notified : Bool) : s.work worker notified = pure s := by
  have hnone : s.workers[worker]? = none := by
    have hlength := h.length_le
    rw [List.getElem?_eq_none_iff]
    omega
  unfold EventLoop.work
  rw [hnone]

theorem step_idle (h : Stopping s) (caller : Nat) :
    s.step (.spawn caller) = pure s ∧ s.step (.assign caller) = pure s := by
  simp [EventLoop.step, h.alive, h.callers]

theorem step_work (h : Stopping s) (worker : Nat) (notified : Bool) :
    s.step (.work worker notified) = s.work worker notified :=
  if_neg (by simp [h.alive])

theorem step (h : Stopping s) {move : LoopMove} (hrunnable : s.Runnable move) :
    Stopping (s.step move).value ∧
      (s.step move).value.leftToDo ≤ s.leftToDo ∧
      (move.isWork → (s.step move).value.leftToDo < s.leftToDo ∨
        (s.step move).value.leftToDo = 0) := by
  have hcounted := h.counted.step move
  cases move with
  | run => exact hrunnable.elim
  | spawn caller =>
      rw [(h.step_idle caller).1]
      exact ⟨h, Nat.le_refl _, by simp [LoopMove.isWork]⟩
  | assign caller =>
      rw [(h.step_idle caller).2]
      exact ⟨h, Nat.le_refl _, by simp [LoopMove.isWork]⟩
  | requestStop =>
      have hstep : s.step .requestStop = _ := requestStop_eq h.alive
      rw [hstep] at hcounted ⊢
      exact ⟨⟨hcounted, rfl, h.callers, h.alive⟩, Nat.le_refl _,
        by simp [LoopMove.isWork]⟩
  | elapse ns =>
      have hstep : s.step (.elapse ns) =
          pure { s with nowNs := s.nowNs + ns } := if_neg (by simp [h.alive])
      rw [hstep] at hcounted ⊢
      exact ⟨⟨hcounted, h.stop, h.callers, h.alive⟩, Nat.le_refl _,
        by simp [LoopMove.isWork]⟩
  | work worker notified =>
      rw [h.step_work]
      refine ⟨h.work worker notified, ?_⟩
      rcases eq_or_ne worker 0 with rfl | hne
      · have hlower := leftToDo_work h.stop hrunnable
        exact ⟨by omega, fun _ => hlower⟩
      · rw [h.work_other hne]
        refine ⟨Nat.le_refl _, fun hwork => ?_⟩
        simp [LoopMove.isWork, hne] at hwork

end Stopping

/-- Asked to stop while nobody is inside `run`, the loop has ended after five
steps of its worker, even if the notification is lost, unless somebody calls
`run` again. -/
theorem stop_ends {tickInterval : Int} {before after : List LoopMove}
    (hcallers : (loopMachine.run { tickInterval } before).value.callers = [])
    (halive :
      (loopMachine.run { tickInterval } before).value.terminated = false)
    (hrunnable : loopMachine.Along Runnable
      (loopMachine.run { tickInterval } (before ++ [.requestStop])).value
      after)
    (hsteps : 5 ≤ after.countP LoopMove.isWork) :
    (loopMachine.run { tickInterval }
      (before ++ [.requestStop] ++ after)).value.running = false := by
  have hcounted := Counted.run tickInterval (before ++ [.requestStop])
  have hvalue : (loopMachine.run { tickInterval }
      (before ++ [.requestStop])).value = _ :=
    Machine.value_run_concat ..
  rw [requestStop_eq halive] at hvalue
  have hstopping : Stopping (loopMachine.run { tickInterval }
      (before ++ [.requestStop])).value := by
    refine ⟨hcounted, ?_, ?_, ?_⟩
    · rw [hvalue]
      rfl
    · rw [hvalue]
      exact hcallers
    · rw [hvalue]
      exact halive
  rw [Machine.value_run_append]
  generalize (loopMachine.run { tickInterval }
    (before ++ [.requestStop])).value = s at hstopping hrunnable
  have hend := Machine.invariant_along (m := loopMachine) (I := Stopping)
    (fun _ _ h hmove => (h.step hmove).1) hstopping hrunnable
  apply hend.running_eq
  have hrank := Machine.rank_countP (m := loopMachine) (I := Stopping)
    (f := leftToDo) (g := LoopMove.isWork)
    (fun _ _ h hmove => (h.step hmove).1)
    (fun _ _ h hmove => (h.step hmove).2.1)
    (fun _ _ h hmove => (h.step hmove).2.2) hstopping hrunnable
  have hfirst := s.leftToDo_le
  omega

/-! The loop runs only once. -/

theorem Counted.done_of_exchanged {s : EventLoop} (h : Counted s)
    {caller : Nat} (hcaller : s.callers[caller]? = some .exchanged) :
    ∀ phase ∈ s.workers, phase = .done := by
  have halive := h.alive
  have hflag := Bool.toNat_le s.running
  have hcalling : 0 < s.callers.count .exchanged :=
    List.count_pos_iff.mpr (List.mem_of_getElem? hcaller)
  have hzero : s.workers.countP TickPhase.alive = 0 := by omega
  rw [List.countP_eq_zero] at hzero
  intro phase hphase
  have hdead := hzero phase hphase
  cases phase with
  | done => rfl
  | _ => exact absurd rfl hdead

/-- Where a worker can be that finds the loop stopped when it starts. -/
def Turned : TickPhase → Prop
  | .entered | .checking _ | .stopping | .done => True
  | .reading _ | .calling _ | .waiting .. => False

structure Once (s : EventLoop) (history : List LoopEvent) : Prop where
  stopped : ∀ phase ∈ s.workers, phase = .stopping ∨ phase = .done →
    s.stopRequested = true
  later : ∀ worker phase, 0 < worker → s.workers[worker]? = some phase →
    s.stopRequested = true ∧ Turned phase
  first : ∀ worker elapsedMs nowNs,
    .ticked worker elapsedMs nowNs ∈ history → worker = 0

namespace Once

variable {s : EventLoop} {history : List LoopEvent}

theorem init (tickInterval : Int) : Once { tickInterval } [] where
  stopped _ h := by simp at h
  later _ _ _ h := by simp at h
  first _ _ _ h := by simp at h

theorem goto (h : Once s history) {worker : Nat} {old phase : TickPhase}
    {events : List LoopEvent} (hworker : s.workers[worker]? = some old)
    (hstopped : phase = .stopping ∨ phase = .done → s.stopRequested = true)
    (hlater : 0 < worker → Turned phase)
    (hfirst : ∀ other elapsedMs nowNs,
      .ticked other elapsedMs nowNs ∈ events → other = 0) :
    Once (s.goto worker phase) (history ++ events) where
  stopped found hfound hend := by
    rcases List.mem_or_eq_of_mem_set hfound with hold | rfl
    · exact h.stopped found hold hend
    · exact hstopped hend
  later other found hpos hfound := by
    obtain ⟨hlength, -⟩ := List.getElem?_eq_some_iff.mp hworker
    change (s.workers.set worker phase)[other]? = some found at hfound
    rcases eq_or_ne worker other with rfl | hne
    · rw [List.getElem?_set_self hlength] at hfound
      obtain rfl : phase = found := Option.some.inj hfound
      exact ⟨(h.later worker old hpos hworker).1, hlater hpos⟩
    · rw [List.getElem?_set_ne hne] at hfound
      exact h.later other found hpos hfound
  first other elapsedMs nowNs hmem := by
    rcases List.mem_append.mp hmem with hold | hnew
    · exact h.first other elapsedMs nowNs hold
    · exact hfirst other elapsedMs nowNs hnew

theorem work (h : Once s history) (worker : Nat) (notified : Bool) :
    Once (s.work worker notified).value
      (history ++ (s.work worker notified).events) := by
  have hidle : Once s (history ++ []) := by rwa [List.append_nil]
  unfold EventLoop.work
  cases hworker : s.workers[worker]? with
  | none => exact hidle
  | some phase =>
      have hturned : 0 < worker → s.stopRequested = true ∧ Turned phase :=
        fun hpos => h.later worker phase hpos hworker
      cases phase with
      | entered =>
          exact h.goto hworker (by simp) (fun _ => trivial) (by simp)
      | checking last =>
          apply h.goto hworker
          · split_ifs with hstop
            · exact fun _ => hstop
            · simp
          · intro hpos
            rw [(hturned hpos).1]
            trivial
          · simp
      | reading last =>
          have hzero : worker = 0 := by
            rcases Nat.eq_zero_or_pos worker with hzero | hpos
            · exact hzero
            · exact (hturned hpos).2.elim
          dsimp only
          split_ifs
          · apply h.goto hworker (by simp)
            · omega
            · intro other elapsedMs nowNs hmem
              obtain ⟨rfl, -⟩ :=
                LoopEvent.ticked.inj (List.mem_singleton.mp hmem)
              exact hzero
          · apply h.goto hworker (by simp)
            · omega
            · simp
      | calling last =>
          exact h.goto hworker (by simp)
            (fun hpos => (hturned hpos).2.elim) (by simp)
      | waiting last deadline =>
          dsimp only
          split_ifs
          · exact h.goto hworker (by simp) (fun _ => trivial) (by simp)
          · exact hidle
      | stopping =>
          have hstop := h.stopped .stopping (List.mem_of_getElem? hworker)
            (.inl rfl)
          have hleft : Once (s.goto worker .done) (history ++ []) :=
            h.goto hworker (fun _ => hstop) (fun _ => trivial) (by simp)
          exact ⟨hleft.stopped, hleft.later, hleft.first⟩
      | done => exact hidle

/-- A loop whose workers have all left it has been stopped. -/
theorem stopRequested (h : Once s history) (hworkers : s.workers ≠ [])
    (hdone : ∀ phase ∈ s.workers, phase = .done) : s.stopRequested = true := by
  obtain ⟨phase, hphase⟩ := List.exists_mem_of_ne_nil s.workers hworkers
  exact h.stopped phase hphase (.inr (hdone phase hphase))

theorem spawn (h : Once s history) (hcounted : Counted s) {caller : Nat}
    (hcaller : s.callers[caller]? = some .exchanged) :
    Once (s.spawn caller) history where
  stopped phase hphase hend := by
    rcases List.mem_append.mp hphase with hold | hnew
    · exact h.stopped phase hold hend
    · rw [List.mem_singleton.mp hnew] at hend
      simp at hend
  later worker phase hpos hworker := by
    change (s.workers ++ [.entered])[worker]? = some phase at hworker
    rcases Nat.lt_or_ge worker s.workers.length with hold | hnew
    · rw [List.getElem?_append_left hold] at hworker
      exact h.later worker phase hpos hworker
    · rw [List.getElem?_append_right hnew] at hworker
      obtain rfl : phase = .entered :=
        List.mem_singleton.mp (List.mem_of_getElem? hworker)
      obtain ⟨hlength, -⟩ := List.getElem?_eq_some_iff.mp hworker
      rw [List.length_singleton] at hlength
      refine ⟨h.stopRequested ?_ (hcounted.done_of_exchanged hcaller), trivial⟩
      exact List.ne_nil_of_length_pos (by omega)
  first := h.first

theorem step (h : Once s history) (hcounted : Counted s) (move : LoopMove) :
    Once (s.step move).value (history ++ (s.step move).events) := by
  have hidle : Once s (history ++ []) := by rwa [List.append_nil]
  have hstepped := s.stepped move
  generalize s.step move = next at hstepped
  cases hstepped with
  | idle => exact hidle
  | worked worker notified => exact h.work worker notified
  | spawned halive hcaller =>
      have hspawned := h.spawn hcounted hcaller
      exact ⟨hspawned.stopped, hspawned.later, hidle.first⟩
  | stopped =>
      refine ⟨fun _ _ _ => rfl, ?_, hidle.first⟩
      intro worker phase hpos hworker
      exact ⟨rfl, (h.later worker phase hpos hworker).2⟩
  | called => exact ⟨hidle.stopped, hidle.later, hidle.first⟩
  | assigned =>
      rw [assign_eq]
      exact ⟨hidle.stopped, hidle.later, hidle.first⟩
  | elapsed ns => exact ⟨hidle.stopped, hidle.later, hidle.first⟩

theorem run (tickInterval : Int) (moves : List LoopMove) :
    Once (loopMachine.run { tickInterval } moves).value
      (loopMachine.run { tickInterval } moves).events := by
  have hboth := Machine.history_run (m := loopMachine)
    (I := fun s history => Counted s ∧ Once s history)
    (fun _ _ move h => ⟨h.1.step move, h.2.step h.1 move⟩)
    ⟨.init tickInterval, init tickInterval⟩ moves
  exact hboth.2

end Once

/-- No call of `run` begins while another is under way. -/
def Alone (s : EventLoop) (move : LoopMove) : Prop :=
  move = .run → s.callers = []

structure Lone (s : EventLoop) : Prop where
  callers : s.callers.length ≤ 1
  terminated : s.terminated = true → s.callers = []

theorem Lone.step {s : EventLoop} (h : Lone s) {move : LoopMove}
    (hmove : s.Alone move) : Lone (s.step move).value := by
  unfold EventLoop.step
  split
  · exact h
  · rename_i halive
    cases move with
    | run =>
        dsimp only
        split
        · exact h
        · refine ⟨?_, fun hterminated => absurd hterminated halive⟩
          change (s.callers ++ [RunPhase.exchanged]).length ≤ 1
          rw [hmove rfl]
          exact Nat.le_refl 1
    | spawn caller =>
        dsimp only
        split
        · refine ⟨?_, fun hterminated => absurd hterminated halive⟩
          change (s.callers.set caller .spawned).length ≤ 1
          rw [List.length_set]
          exact h.callers
        · exact h
    | assign caller =>
        dsimp only
        split
        · rename_i hcaller
          have hleft : s.callers.eraseIdx caller = [] := by
            obtain ⟨hlength, -⟩ := List.getElem?_eq_some_iff.mp hcaller
            rw [← List.length_eq_zero_iff, List.length_eraseIdx_of_lt hlength]
            have hcallers := h.callers
            omega
          rw [assign_eq]
          refine ⟨?_, fun _ => hleft⟩
          change (s.callers.eraseIdx caller).length ≤ 1
          rw [hleft]
          exact Nat.zero_le 1
        · exact h
    | requestStop => exact ⟨h.callers, h.terminated⟩
    | elapse ns => exact ⟨h.callers, h.terminated⟩
    | work worker notified =>
        dsimp only
        rw [(work_frame s worker notified).1]
        exact ⟨h.callers, h.terminated⟩

/-- A loop that has ended cannot be started again. Only the first thread ever
ticks, and each thread but the first has terminated the program where it was
kept, or is yet to be kept; so there is no third, if the calls of `run` do not
overlap. -/
theorem run_once (tickInterval : Int) (moves : List LoopMove) :
    let ran := loopMachine.run { tickInterval } moves
    (∀ worker elapsedMs nowNs,
      .ticked worker elapsedMs nowNs ∈ ran.events → worker = 0) ∧
      ran.value.workers.length = ran.value.joinable.toNat +
        ran.value.callers.count .spawned + ran.value.terminated.toNat ∧
      (loopMachine.Along Alone { tickInterval } moves →
        ran.value.workers.length ≤ 2 ∧
          (ran.value.terminated = true ↔
            ran.value.workers.length = 2 ∧ ran.value.callers = [])) := by
  intro ran
  have hcounted : Counted ran.value := Counted.run tickInterval moves
  have hspawned := hcounted.spawned
  refine ⟨(Once.run tickInterval moves).first, hspawned, fun halone => ?_⟩
  have hlone : Lone ran.value :=
    Machine.invariant_along (m := loopMachine) (I := Lone)
      (fun _ _ h hmove => h.step hmove) ⟨Nat.zero_le 1, nofun⟩ halone
  have hjoinable := Bool.toNat_le ran.value.joinable
  have hcallers : ran.value.callers.count .spawned ≤ 1 :=
    Nat.le_trans List.count_le_length hlone.callers
  cases hterminated : ran.value.terminated with
  | true =>
      have hnone := hlone.terminated hterminated
      rw [hterminated, hcounted.terminated hterminated, hnone] at hspawned
      simp only [List.count_nil, Bool.toNat_true] at hspawned
      exact ⟨by omega, iff_of_true rfl ⟨by omega, hnone⟩⟩
  | false =>
      rw [hterminated, Bool.toNat_false] at hspawned
      refine ⟨by omega, iff_of_false (by simp) ?_⟩
      rintro ⟨hlength, hnone⟩
      rw [hnone, List.count_nil] at hspawned
      omega

-- A caller that is held before it keeps its thread lets two more of them start.
example :
    let turn (worker : Nat) : List LoopMove :=
      [.run, .spawn worker, .work worker true, .work worker true,
        .work worker true]
    (loopMachine.run { tickInterval := 100 }
      (.requestStop :: turn 0 ++ turn 1 ++ turn 2)).value.workers.length =
        3 := by
  decide

/-! Nothing happens behind a loop that has ended. -/

structure Ended (s : EventLoop) : Prop where
  running : s.running = false
  callers : .exchanged ∉ s.callers
  done : ∀ phase ∈ s.workers, phase = .done

theorem Ended.work {s : EventLoop} (h : Ended s) (worker : Nat)
    (notified : Bool) : s.work worker notified = pure s := by
  unfold EventLoop.work
  cases hworker : s.workers[worker]? with
  | none => rfl
  | some phase =>
      obtain rfl := h.done phase (List.mem_of_getElem? hworker)
      rfl

theorem Ended.step {s : EventLoop} (h : Ended s) {move : LoopMove}
    (hmove : move ≠ .run) :
    Ended (s.step move).value ∧ (s.step move).events = [] := by
  unfold EventLoop.step
  split
  · exact ⟨h, rfl⟩
  · cases move with
    | run => exact absurd rfl hmove
    | spawn caller =>
        dsimp only
        split
        · rename_i hcaller
          exact absurd (List.mem_of_getElem? hcaller) h.callers
        · exact ⟨h, rfl⟩
    | assign caller =>
        dsimp only
        split
        · rw [assign_eq]
          refine ⟨⟨h.running, ?_, h.done⟩, rfl⟩
          exact fun hmem => h.callers (List.mem_of_mem_eraseIdx hmem)
        · exact ⟨h, rfl⟩
    | requestStop => exact ⟨⟨h.running, h.callers, h.done⟩, rfl⟩
    | elapse ns => exact ⟨⟨h.running, h.callers, h.done⟩, rfl⟩
    | work worker notified =>
        dsimp only
        rw [h.work]
        exact ⟨h, rfl⟩

theorem Ended.run {s : EventLoop} (h : Ended s) {moves : List LoopMove}
    (hmoves : .run ∉ moves) :
    Ended (loopMachine.run s moves).value ∧
      (loopMachine.run s moves).events = [] := by
  induction moves generalizing s with
  | nil => exact ⟨h, rfl⟩
  | cons move moves ih =>
      rw [List.mem_cons, not_or] at hmoves
      obtain ⟨hmove, hrest⟩ := hmoves
      obtain ⟨hnext, hevents⟩ := h.step (Ne.symm hmove)
      obtain ⟨hend, hlater⟩ := ih hnext hrest
      refine ⟨hend, ?_⟩
      rw [Machine.events_run_cons]
      exact List.append_eq_nil_iff.mpr ⟨hevents, hlater⟩

/-- Where `is_running` has been false, no callback is being made and none will
be, as long as `run` is not called again. -/
theorem silent_after_end {tickInterval : Int} {before after : List LoopMove}
    (hended : (loopMachine.run { tickInterval } before).value.running = false)
    (hafter : .run ∉ after) :
    let ended := (loopMachine.run { tickInterval } before).value
    (∀ phase ∈ ended.workers, phase = .done) ∧
      (loopMachine.run ended after).events = [] ∧
      (loopMachine.run ended after).value.running = false := by
  intro ended
  obtain ⟨hcaller, hdone⟩ :=
    (Counted.run tickInterval before).running_iff.mp hended
  obtain ⟨hend, hevents⟩ :=
    Ended.run (s := ended) ⟨hended, hcaller, hdone⟩ hafter
  exact ⟨hdone, hevents, hend.running⟩

/-! A loop that ticks once and is asked to stop while its worker sleeps. -/

def tickOnce : List LoopMove :=
  [.run, .spawn 0, .assign 0, .work 0 false, .work 0 false, .elapse 100000000,
    .work 0 false, .work 0 false]

def wakeUp : List LoopMove := List.replicate 5 (.work 0 true)

theorem tickOnce_once :
    let ran := loopMachine.run { tickInterval := 100 } tickOnce
    ran.value.workers.length ≤ 2 ∧
      (ran.value.terminated = true ↔
        ran.value.workers.length = 2 ∧ ran.value.callers = []) :=
  (run_once 100 tickOnce).2.2 ⟨fun _ => rfl, nofun, nofun, nofun, nofun, nofun,
    nofun, nofun, trivial⟩

theorem tickOnce_ends :
    (loopMachine.run { tickInterval := 100 }
      (tickOnce ++ [.requestStop] ++ wakeUp)).value.running = false := by
  have hnotified : ∀ s : EventLoop, s.Runnable (.work 0 true) :=
    fun _ _ _ _ => .inl rfl
  exact stop_ends rfl rfl ⟨hnotified _, hnotified _, hnotified _,
    hnotified _, hnotified _, trivial⟩ (by decide)

end EventLoop

end HeidiKernel
