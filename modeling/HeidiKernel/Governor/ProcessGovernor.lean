import HeidiKernel.GovRule.Message
import HeidiKernel.Transition.Machine
import Mathlib.Data.List.AList

namespace HeidiKernel.Gov

open HeidiKernel.Transition

/-! The process governor: callers of `enqueue` on one side, the thread of
`apply_loop` on the other. The queue and the rule table have separate mutexes,
so a message can be in neither. -/

structure ApplyResult where
  success : Bool := false
  err : Int := 0
  errorDetail : Bytes := []
  deriving DecidableEq, Repr

def kQueueCapacity : Nat := 256

structure Stats where
  messagesProcessed : Nat := 0
  messagesFailed : Nat := 0
  lastErr : UInt64 := 0
  lastErrDetail : Bytes := []
  deriving DecidableEq, Repr

/-- Where the thread of `apply_loop` stands. -/
inductive LoopPoint
  | polling
  | holding (msg : GovApplyMsg)
  | applying (msg : GovApplyMsg)
  deriving DecidableEq, Repr

structure ProcessGovernor where
  ingressQueue : List GovApplyMsg := []
  rules : AList fun _ : Int32 => GovApplyMsg := ∅
  stats : Stats := {}
  loop : LoopPoint := .polling

/-- One step of a caller or of the loop. The loop locks the queue for `take`,
calls `apply_rules` without a lock, and locks the rules for `finish`. -/
inductive GovernorMove
  | enqueue (msg : GovApplyMsg)
  | take
  | apply
  | finish (result : ApplyResult)

/-- The answers of `enqueue` and the calls of `apply_rules`. -/
inductive GovernorEvent
  | enqueued (msg : GovApplyMsg) (accepted : Bool)
  | handed (msg : GovApplyMsg)
  | finished (msg : GovApplyMsg) (result : ApplyResult)
  deriving DecidableEq, Repr

namespace ProcessGovernor

def enqueue (msg : GovApplyMsg) (g : ProcessGovernor) :
    Bool × ProcessGovernor :=
  if g.ingressQueue.length ≥ kQueueCapacity then
    (false, g)
  else
    (true, { g with ingressQueue := g.ingressQueue ++ [msg] })

/-- The message the loop looks at: the front of the queue, or the default one
if the queue is empty. A pid of zero sends the loop back to polling. -/
def takeFront (g : ProcessGovernor) : ProcessGovernor :=
  let msg := g.ingressQueue.headD {}
  { g with
    ingressQueue := g.ingressQueue.tail
    loop := if msg.pid = 0 then .polling else .holding msg }

def record (msg : GovApplyMsg) (result : ApplyResult) (g : ProcessGovernor) :
    ProcessGovernor :=
  if result.success then
    { g with
      stats := { g.stats with
        messagesProcessed := g.stats.messagesProcessed + 1 }
      rules := g.rules.insert msg.pid msg }
  else
    { g with
      stats := { g.stats with
        messagesFailed := g.stats.messagesFailed + 1
        lastErr := UInt64.ofInt result.err
        lastErrDetail := result.errorDetail } }

/-- A move the loop is not at does nothing. -/
def step (g : ProcessGovernor) :
    GovernorMove → Traced GovernorEvent ProcessGovernor
  | .enqueue msg => do
      let (accepted, g) := g.enqueue msg
      Traced.log (.enqueued msg accepted)
      pure g
  | .take =>
      match g.loop with
      | .polling => pure g.takeFront
      | .holding _ | .applying _ => pure g
  | .apply =>
      match g.loop with
      | .holding msg => do
          Traced.log (.handed msg)
          pure { g with loop := .applying msg }
      | .polling | .applying _ => pure g
  | .finish result =>
      match g.loop with
      | .applying msg => do
          Traced.log (.finished msg result)
          pure { g.record msg result with loop := .polling }
      | .polling | .holding _ => pure g

/-- The message that is neither in the queue nor handed to `apply_rules`. -/
def inHand (g : ProcessGovernor) : List GovApplyMsg :=
  match g.loop with
  | .holding msg => [msg]
  | .polling | .applying _ => []

def inWork (g : ProcessGovernor) : List GovApplyMsg :=
  match g.loop with
  | .applying msg => [msg]
  | .polling | .holding _ => []

end ProcessGovernor

def governorMachine : Machine ProcessGovernor GovernorMove GovernorEvent where
  step := ProcessGovernor.step

def runGovernor (moves : List GovernorMove) :
    Traced GovernorEvent ProcessGovernor :=
  governorMachine.run {} moves

namespace GovernorEvent

def accepted? : GovernorEvent → Option GovApplyMsg
  | .enqueued msg true => some msg
  | _ => none

def handed? : GovernorEvent → Option GovApplyMsg
  | .handed msg => some msg
  | _ => none

def finished? : GovernorEvent → Option (GovApplyMsg × ApplyResult)
  | .finished msg result => some (msg, result)
  | _ => none

def applied? : GovernorEvent → Option GovApplyMsg
  | .finished msg result => if result.success then some msg else none
  | _ => none

end GovernorEvent

def acceptedMsgs (events : List GovernorEvent) : List GovApplyMsg :=
  events.filterMap GovernorEvent.accepted?

def handedMsgs (events : List GovernorEvent) : List GovApplyMsg :=
  events.filterMap GovernorEvent.handed?

def finishedMsgs (events : List GovernorEvent) :
    List (GovApplyMsg × ApplyResult) :=
  events.filterMap GovernorEvent.finished?

/-- The messages applied successfully, in the order of their application. -/
def appliedMsgs (events : List GovernorEvent) : List GovApplyMsg :=
  events.filterMap GovernorEvent.applied?

section Concat

variable (events : List GovernorEvent) (last : GovernorEvent)

@[simp] theorem acceptedMsgs_concat :
    acceptedMsgs (events ++ [last]) =
      acceptedMsgs events ++ last.accepted?.toList := by
  simp [acceptedMsgs, List.filterMap_append, List.filterMap_cons]
  cases last.accepted? <;> rfl

@[simp] theorem handedMsgs_concat :
    handedMsgs (events ++ [last]) =
      handedMsgs events ++ last.handed?.toList := by
  simp [handedMsgs, List.filterMap_append, List.filterMap_cons]
  cases last.handed? <;> rfl

@[simp] theorem finishedMsgs_concat :
    finishedMsgs (events ++ [last]) =
      finishedMsgs events ++ last.finished?.toList := by
  simp [finishedMsgs, List.filterMap_append, List.filterMap_cons]
  cases last.finished? <;> rfl

@[simp] theorem appliedMsgs_concat :
    appliedMsgs (events ++ [last]) =
      appliedMsgs events ++ last.applied?.toList := by
  simp [appliedMsgs, List.filterMap_append, List.filterMap_cons]
  cases last.applied? <;> rfl

end Concat

namespace ProcessGovernor

/-- The state of the governor together with all it has answered and called. -/
structure Discipline (g : ProcessGovernor) (history : List GovernorEvent) :
    Prop where
  bounded : g.ingressQueue.length ≤ kQueueCapacity
  queued_pid : ∀ msg ∈ g.ingressQueue, msg.pid ≠ 0
  accepted : acceptedMsgs history =
    handedMsgs history ++ g.inHand ++ g.ingressQueue
  handed : handedMsgs history =
    (finishedMsgs history).map Prod.fst ++ g.inWork
  counted : g.stats.messagesProcessed + g.stats.messagesFailed =
    (finishedMsgs history).length
  rules : ∀ pid, g.rules.lookup pid =
    ((appliedMsgs history).filter fun msg => msg.pid = pid).getLast?

theorem initial_discipline : Discipline {} [] where
  bounded := Nat.zero_le _
  queued_pid := by simp
  accepted := rfl
  handed := rfl
  counted := rfl
  rules := fun pid => AList.lookup_empty pid

namespace Discipline

variable {g : ProcessGovernor} {history : List GovernorEvent}
  (h : Discipline g history)

include h

/-- A full queue refuses; otherwise the message goes to its end. -/
theorem enqueue {msg : GovApplyMsg} (hpid : msg.pid ≠ 0) :
    Discipline (g.step (.enqueue msg)).value
      (history ++ (g.step (.enqueue msg)).events) := by
  by_cases hfull : g.ingressQueue.length ≥ kQueueCapacity
  · have hstep : g.step (.enqueue msg) = ⟨g, [.enqueued msg false]⟩ := by
      ext1 <;> simp [step, ProcessGovernor.enqueue, hfull]
    rw [hstep]
    exact ⟨h.bounded, h.queued_pid,
      by simpa [GovernorEvent.accepted?, GovernorEvent.handed?]
        using h.accepted,
      by simpa [GovernorEvent.handed?, GovernorEvent.finished?] using h.handed,
      by simpa [GovernorEvent.finished?] using h.counted,
      by simpa [GovernorEvent.applied?] using h.rules⟩
  · have hstep : g.step (.enqueue msg) =
        ⟨{ g with ingressQueue := g.ingressQueue ++ [msg] },
          [.enqueued msg true]⟩ := by
      ext1 <;> simp [step, ProcessGovernor.enqueue, hfull]
    rw [hstep]
    constructor
    case bounded =>
      rw [List.length_append, List.length_singleton]
      omega
    case queued_pid =>
      intro other hother
      rcases List.mem_append.mp hother with hold | hnew
      · exact h.queued_pid other hold
      · rwa [List.mem_singleton.mp hnew]
    case accepted =>
      have haccepted := h.accepted
      simp only [inHand] at haccepted ⊢
      simp [GovernorEvent.accepted?, GovernorEvent.handed?, haccepted]
    case handed =>
      simpa [GovernorEvent.handed?, GovernorEvent.finished?, inWork]
        using h.handed
    case counted =>
      simpa [GovernorEvent.finished?] using h.counted
    case rules =>
      simpa [GovernorEvent.applied?] using h.rules

theorem take :
    Discipline (g.step .take).value (history ++ (g.step .take).events) := by
  cases hloop : g.loop with
  | holding msg | applying msg =>
      have hstep : g.step .take = ⟨g, []⟩ := by
        ext1 <;> simp [step, hloop]
      rw [hstep, List.append_nil]
      exact h
  | polling =>
      have hstep : g.step .take = ⟨g.takeFront, []⟩ := by
        ext1 <;> simp [step, hloop]
      rw [hstep, List.append_nil]
      have haccepted := h.accepted
      have hhanded := h.handed
      simp only [inHand, inWork, hloop] at haccepted hhanded
      cases hqueue : g.ingressQueue with
      | nil =>
          have hidle : g.takeFront =
              { g with ingressQueue := [], loop := .polling } := by
            simp [takeFront, hqueue]
          rw [hqueue] at haccepted
          rw [hidle]
          exact ⟨Nat.zero_le _, by simp, haccepted, hhanded, h.counted,
            h.rules⟩
      | cons msg queue =>
          have hpid : msg.pid ≠ 0 := h.queued_pid msg (by simp [hqueue])
          have htaken : g.takeFront =
              { g with ingressQueue := queue, loop := .holding msg } := by
            simp [takeFront, hqueue, hpid]
          have hbounded := h.bounded
          rw [hqueue] at haccepted
          rw [hqueue, List.length_cons] at hbounded
          rw [htaken]
          refine ⟨Nat.le_of_succ_le hbounded, fun other hother =>
            h.queued_pid other (by simp [hqueue, hother]), ?_, ?_, h.counted,
            h.rules⟩
          · simpa [inHand] using haccepted
          · simpa [inWork] using hhanded

theorem apply :
    Discipline (g.step .apply).value (history ++ (g.step .apply).events) := by
  cases hloop : g.loop with
  | polling | applying msg =>
      have hstep : g.step .apply = ⟨g, []⟩ := by
        ext1 <;> simp [step, hloop]
      rw [hstep, List.append_nil]
      exact h
  | holding msg =>
      have hstep : g.step .apply =
          ⟨{ g with loop := .applying msg }, [.handed msg]⟩ := by
        ext1 <;> simp [step, hloop]
      have haccepted := h.accepted
      have hhanded := h.handed
      simp only [inHand, inWork, hloop] at haccepted hhanded
      rw [hstep]
      refine ⟨h.bounded, h.queued_pid, ?_, ?_, ?_, ?_⟩
      · simpa [GovernorEvent.accepted?, GovernorEvent.handed?, inHand]
          using haccepted
      · simpa [GovernorEvent.handed?, GovernorEvent.finished?, inWork]
          using hhanded
      · simpa [GovernorEvent.finished?] using h.counted
      · simpa [GovernorEvent.applied?] using h.rules

theorem finish (result : ApplyResult) :
    Discipline (g.step (.finish result)).value
      (history ++ (g.step (.finish result)).events) := by
  cases hloop : g.loop with
  | polling | holding msg =>
      have hstep : g.step (.finish result) = ⟨g, []⟩ := by
        ext1 <;> simp [step, hloop]
      rw [hstep, List.append_nil]
      exact h
  | applying msg =>
      have hstep : g.step (.finish result) =
          ⟨{ g.record msg result with loop := .polling },
            [.finished msg result]⟩ := by
        ext1 <;> simp [step, hloop]
      have haccepted := h.accepted
      have hhanded := h.handed
      have hcounted := h.counted
      simp only [inHand, inWork, hloop] at haccepted hhanded
      have hframe : (g.record msg result).ingressQueue = g.ingressQueue := by
        unfold record
        split <;> rfl
      rw [hstep]
      constructor
      case bounded =>
        rw [hframe]
        exact h.bounded
      case queued_pid =>
        rw [hframe]
        exact h.queued_pid
      case accepted =>
        simpa [GovernorEvent.accepted?, GovernorEvent.handed?, inHand, hframe]
          using haccepted
      case handed =>
        simpa [GovernorEvent.handed?, GovernorEvent.finished?, inWork]
          using hhanded
      case counted =>
        cases hsuccess : result.success <;>
          simp [GovernorEvent.finished?, record, hsuccess] <;> omega
      case rules =>
        intro pid
        cases hsuccess : result.success with
        | false =>
            simpa [GovernorEvent.applied?, record, hsuccess] using h.rules pid
        | true =>
            simp only [record, hsuccess, if_true, appliedMsgs_concat,
              GovernorEvent.applied?, Option.toList_some, List.filter_append]
            by_cases hsame : msg.pid = pid
            · subst hsame
              simp
            · rw [AList.lookup_insert_ne (Ne.symm hsame), h.rules pid]
              simp [hsame]

theorem step {move : GovernorMove}
    (hpid : ∀ msg, move = .enqueue msg → msg.pid ≠ 0) :
    Discipline (g.step move).value (history ++ (g.step move).events) := by
  cases move with
  | enqueue msg => exact h.enqueue (hpid msg rfl)
  | take => exact h.take
  | apply => exact h.apply
  | finish result => exact h.finish result

end Discipline

/-- However callers and loop take turns, the queue stays within its capacity,
no accepted message is lost or overtaken, every application is counted once,
and the rule of a pid is its last message applied successfully. -/
theorem runGovernor_discipline {moves : List GovernorMove}
    (hpid : ∀ msg, .enqueue msg ∈ moves → msg.pid ≠ 0) :
    let g := (runGovernor moves).value
    let history := (runGovernor moves).events
    g.ingressQueue.length ≤ kQueueCapacity ∧
      acceptedMsgs history =
        handedMsgs history ++ g.inHand ++ g.ingressQueue ∧
      handedMsgs history = (finishedMsgs history).map Prod.fst ++ g.inWork ∧
      g.stats.messagesProcessed + g.stats.messagesFailed =
        (finishedMsgs history).length ∧
      ∀ pid, g.rules.lookup pid =
        ((appliedMsgs history).filter fun msg => msg.pid = pid).getLast? := by
  intro g history
  have halong : governorMachine.Along
      (fun _ move => ∀ msg, move = .enqueue msg → msg.pid ≠ 0) {} moves := by
    rw [Machine.along_iff_forall_split]
    rintro before move after rfl msg rfl
    exact hpid msg (by simp)
  have h := Machine.history_along (m := governorMachine) (I := Discipline)
    (fun _ _ _ hI hmove => hI.step hmove) initial_discipline halong
  rw [List.nil_append] at h
  exact ⟨h.bounded, h.accepted, h.handed, h.counted, h.rules⟩

/-- Two messages for one process, the first applied and the second in hand. -/
def twoMessages : List GovernorMove :=
  [.enqueue { pid := 7, oomScoreAdj := some 1 },
    .enqueue { pid := 7, oomScoreAdj := some 2 }, .take, .apply,
    .finish { success := true }, .take]

theorem twoMessages_discipline :
    (runGovernor twoMessages).value.rules.lookup 7 =
      some { pid := 7, oomScoreAdj := some 1 } := by
  have hrules := (@runGovernor_discipline twoMessages (by
    intro msg hmem
    simp only [twoMessages, List.mem_cons, GovernorMove.enqueue.injEq,
      reduceCtorEq, List.not_mem_nil, or_false] at hmem
    rcases hmem with rfl | rfl <;> decide)).2.2.2.2 7
  rw [hrules]
  decide +kernel

end ProcessGovernor

end HeidiKernel.Gov
