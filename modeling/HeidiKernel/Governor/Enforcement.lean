import HeidiKernel.Governor.Target

namespace HeidiKernel.Gov

open HeidiKernel.Transition

/-! The governor at work on the processes: its callers, its loop, and the
processes that others change meanwhile. -/


/-- The governor, the result its loop has yet to record, and the processes. An
exception out of `apply_rules` aborts it. -/
structure Enforcer where
  governor : ProcessGovernor := {}
  result : Option ApplyResult := none
  targets : Int32 → Target
  aborted : Bool := false

/-- A call of `enqueue`, a step of the loop, or a change of a process by
somebody else, such as its end and the start of another with its pid. -/
inductive EnforcerMove
  | enqueue (msg : GovApplyMsg)
  | take
  | apply (calls : RuleCalls) (rl : Rlimit)
  | finish
  | change (pid : Int32) (target : Target)

/-- What the governor logs, the settings each message has changed, and the
changes by others. -/
inductive EnforcerEvent
  | governor (event : GovernorEvent)
  | applied (msg : GovApplyMsg) (changed : List Setting)
  | changed (pid : Int32)

namespace EnforcerEvent

def Touches (pid : Int32) (setting : Setting) : EnforcerEvent → Prop
  | governor _ => False
  | applied msg settings => msg.pid = pid ∧ setting ∈ settings
  | changed other => other = pid

def governor? : EnforcerEvent → Option GovernorEvent
  | governor event => some event
  | applied _ _ | changed _ => none

def applied? : EnforcerEvent → Option GovApplyMsg
  | applied msg _ => some msg
  | governor _ | changed _ => none

end EnforcerEvent

/-- What the governor alone has logged. -/
def governorEvents (events : List EnforcerEvent) : List GovernorEvent :=
  events.filterMap EnforcerEvent.governor?

/-- The messages applied to processes, in their order. -/
def enforcedMsgs (events : List EnforcerEvent) : List GovApplyMsg :=
  events.filterMap EnforcerEvent.applied?

namespace Enforcer

def govern (e : Enforcer) (move : GovernorMove) :
    Traced EnforcerEvent Enforcer := do
  let governor ← (e.governor.step move).relabel EnforcerEvent.governor
  pure { e with governor }

theorem govern_eq (e : Enforcer) (move : GovernorMove) :
    e.govern move =
      ⟨{ e with governor := (e.governor.step move).value },
        (e.governor.step move).events.map .governor⟩ := by
  ext1 <;> simp [govern]

def apply (e : Enforcer) (calls : RuleCalls) (rl : Rlimit) (msg : GovApplyMsg) :
    Traced EnforcerEvent Enforcer :=
  match calls.applyRules rl msg with
  -- The list of processors is read before anything is changed.
  | .error _ => pure { e with aborted := true }
  | .ok r => do
      let e ← e.govern .apply
      Traced.log (.applied msg r.events)
      pure { e with
        result := some r.value.toApplyResult
        targets := Function.update e.targets msg.pid
          (calls.writeRules rl (e.targets msg.pid) msg) }

def step (e : Enforcer) : EnforcerMove → Traced EnforcerEvent Enforcer
  | .change pid target => do
      Traced.log (.changed pid)
      pure { e with targets := Function.update e.targets pid target }
  | .enqueue msg => if e.aborted then pure e else e.govern (.enqueue msg)
  | .take => if e.aborted then pure e else e.govern .take
  | .apply calls rl =>
      match e.governor.loop with
      | .holding msg => if e.aborted then pure e else e.apply calls rl msg
      | .polling | .applying _ => pure e
  | .finish =>
      match e.result with
      | some result =>
          if e.aborted then pure e else do
            let e ← e.govern (.finish result)
            pure { e with result := none }
      | none => pure e

end Enforcer

def enforcerMachine : Machine Enforcer EnforcerMove EnforcerEvent where
  step := Enforcer.step

namespace Enforcer

/-- The ways a step can go. -/
inductive Stepped (e : Enforcer) :
    EnforcerMove → Traced EnforcerEvent Enforcer → Prop
  | idle {move : EnforcerMove} : Stepped e move (pure e)
  | aborted {move : EnforcerMove} :
      Stepped e move (pure { e with aborted := true })
  | changed (pid : Int32) (target : Target) :
      Stepped e (.change pid target)
        ⟨{ e with targets := Function.update e.targets pid target },
          [.changed pid]⟩
  | enqueued (msg : GovApplyMsg) :
      Stepped e (.enqueue msg) (e.govern (.enqueue msg))
  | taken : Stepped e .take (e.govern .take)
  | applied {calls : RuleCalls} {rl : Rlimit} {msg : GovApplyMsg}
      {r : Traced Setting RulesResult} (hloop : e.governor.loop = .holding msg)
      (hrules : calls.applyRules rl msg = .ok r) :
      Stepped e (.apply calls rl)
        ⟨{ e with
            governor := (e.governor.step .apply).value
            result := some r.value.toApplyResult
            targets := Function.update e.targets msg.pid
              (calls.writeRules rl (e.targets msg.pid) msg) },
          (e.governor.step .apply).events.map .governor ++
            [.applied msg r.events]⟩
  | finished {result : ApplyResult} (hresult : e.result = some result) :
      Stepped e .finish
        ⟨{ e with
            governor := (e.governor.step (.finish result)).value
            result := none },
          (e.governor.step (.finish result)).events.map .governor⟩

theorem stepped (e : Enforcer) (move : EnforcerMove) :
    e.Stepped move (e.step move) := by
  cases move with
  | change pid target => exact .changed pid target
  | enqueue msg =>
      rw [step]
      split
      · exact .idle
      · exact .enqueued msg
  | take =>
      rw [step]
      split
      · exact .idle
      · exact .taken
  | apply calls rl =>
      cases hloop : e.governor.loop with
      | polling | applying msg =>
          simp only [step, hloop]
          exact .idle
      | holding msg =>
          simp only [step, hloop]
          split
          · exact .idle
          · cases hrules : calls.applyRules rl msg with
            | error error =>
                rw [apply, hrules]
                exact .aborted
            | ok r =>
                simp only [apply, hrules, govern_eq]
                exact .applied hloop hrules
  | finish =>
      cases hresult : e.result with
      | none =>
          simp only [step, hresult]
          exact .idle
      | some result =>
          simp only [step, hresult]
          split
          · exact .idle
          · simp only [govern_eq]
            convert Stepped.finished hresult using 1
            ext1 <;> simp

/-- A setting of a process stays as it is unless an event tells. -/
theorem Stepped.kept {e : Enforcer} {move : EnforcerMove}
    {next : Traced EnforcerEvent Enforcer} (h : e.Stepped move next)
    {pid : Int32} {setting : Setting}
    (huntouched : ∀ event ∈ next.events, ¬event.Touches pid setting) :
    (next.value.targets pid).Agree (e.targets pid) setting := by
  cases h with
  | idle | aborted | enqueued | taken | finished => exact .refl _ _
  | changed other target =>
      have hne : pid ≠ other := by
        rintro rfl
        exact huntouched _ (List.mem_singleton_self _) rfl
      dsimp only
      rw [Function.update_of_ne hne]
      exact .refl _ _
  | @applied calls rl msg r hloop hrules =>
      dsimp only
      rcases eq_or_ne pid msg.pid with rfl | hne
      · rw [Function.update_self]
        refine (wrote_rules _ hrules).kept setting fun hchanged => ?_
        exact huntouched (.applied msg r.events) (by simp) ⟨rfl, hchanged⟩
      · rw [Function.update_of_ne hne]
        exact .refl _ _

end Enforcer

/-- A message was applied, and each setting it asks for is in force unless a
later event has touched it. -/
def Enforced (msg : GovApplyMsg) (history : List EnforcerEvent) (t : Target) :
    Prop :=
  ∃ before changed after,
    history = before ++ .applied msg changed :: after ∧
      ∀ step ∈ msg.steps,
        (∀ event ∈ after, ¬event.Touches msg.pid step.setting) →
          step.InForce t

theorem Enforced.append {msg : GovApplyMsg} {history events : List EnforcerEvent}
    {t t' : Target} (h : Enforced msg history t)
    (hkept : ∀ setting, (∀ event ∈ events, ¬event.Touches msg.pid setting) →
      t'.Agree t setting) :
    Enforced msg (history ++ events) t' := by
  obtain ⟨before, changed, after, rfl, hforce⟩ := h
  refine ⟨before, changed, after ++ events, by simp, fun step hstep hall => ?_⟩
  obtain ⟨hafter, hevents⟩ := List.forall_mem_append.mp hall
  exact (hforce step hstep hafter).congr (hkept _ hevents)

namespace Enforcer

/-- The rules, and the result that is yet to be recorded, are of messages whose
settings are in force. -/
structure Enforces (e : Enforcer) (history : List EnforcerEvent) : Prop where
  rules : ∀ pid msg, e.governor.rules.lookup pid = some msg →
    msg.pid = pid ∧ Enforced msg history (e.targets pid)
  result : ∀ result, e.result = some result →
    ∃ msg, e.governor.loop = .applying msg ∧
      (result.success = true → Enforced msg history (e.targets msg.pid))

theorem governor_enqueue (g : ProcessGovernor) (msg : GovApplyMsg) :
    (g.step (.enqueue msg)).value.rules = g.rules ∧
      (g.step (.enqueue msg)).value.loop = g.loop := by
  simp only [ProcessGovernor.step, ProcessGovernor.enqueue]
  split <;> exact ⟨rfl, rfl⟩

theorem governor_take (g : ProcessGovernor) :
    (g.step .take).value.rules = g.rules ∧
      ∀ msg, g.loop = .applying msg →
        (g.step .take).value.loop = .applying msg := by
  cases hloop : g.loop with
  | polling =>
      simp only [ProcessGovernor.step, hloop]
      exact ⟨rfl, fun _ h => by cases h⟩
  | holding msg | applying msg =>
      simp only [ProcessGovernor.step, hloop]
      exact ⟨rfl, fun _ h => hloop.trans h⟩

theorem Enforces.later {e : Enforcer} {history : List EnforcerEvent}
    (h : Enforces e history) {move : EnforcerMove}
    {next : Traced EnforcerEvent Enforcer} (hstep : e.Stepped move next) :
    Enforces { e with targets := next.value.targets }
      (history ++ next.events) := by
  have hlater : ∀ msg, Enforced msg history (e.targets msg.pid) →
      Enforced msg (history ++ next.events) (next.value.targets msg.pid) :=
    fun msg hmsg => hmsg.append fun setting hevents => hstep.kept hevents
  constructor
  · intro pid msg hrule
    obtain ⟨rfl, hmsg⟩ := h.rules pid msg hrule
    exact ⟨rfl, hlater msg hmsg⟩
  · intro result hresult
    obtain ⟨msg, hloop, hmsg⟩ := h.result result hresult
    exact ⟨msg, hloop, fun hsuccess => hlater msg (hmsg hsuccess)⟩

/-- A step of the governor that keeps its rules and the message it applies. -/
theorem Enforces.governed {e : Enforcer} {history : List EnforcerEvent}
    (h : Enforces e history) {governor : ProcessGovernor}
    (hrules : governor.rules = e.governor.rules)
    (hloop : ∀ msg, e.governor.loop = .applying msg →
      governor.loop = .applying msg) : Enforces { e with governor } history where
  rules := by
    rw [hrules]
    exact h.rules
  result result hresult := by
    obtain ⟨msg, hat, hmsg⟩ := h.result result hresult
    exact ⟨msg, hloop msg hat, hmsg⟩

/-- A result that is recorded makes its message a rule if it is a success. -/
theorem Enforces.finished {e : Enforcer} {history : List EnforcerEvent}
    (h : Enforces e history) {result : ApplyResult} {msg : GovApplyMsg}
    (hresult : e.result = some result)
    (hloop : e.governor.loop = .applying msg) :
    Enforces { e with
      governor := { e.governor.record msg result with loop := .polling }
      result := none } history where
  rules := by
    intro pid other hlookup
    obtain ⟨known, hat, hmsg⟩ := h.result result hresult
    obtain rfl := LoopPoint.applying.inj (hloop.symm.trans hat)
    cases hsuccess : result.success with
    | false =>
        refine h.rules pid other ?_
        simpa [ProcessGovernor.record, hsuccess] using hlookup
    | true =>
        have hlookup : (e.governor.rules.insert msg.pid msg).lookup pid =
            some other := by
          simpa [ProcessGovernor.record, hsuccess] using hlookup
        rcases eq_or_ne pid msg.pid with rfl | hne
        · rw [AList.lookup_insert] at hlookup
          obtain rfl := Option.some.inj hlookup
          exact ⟨rfl, hmsg hsuccess⟩
        · rw [AList.lookup_insert_ne hne] at hlookup
          exact h.rules pid other hlookup
  result _ hnone := by cases hnone

theorem Enforces.stepped {e : Enforcer} {history : List EnforcerEvent}
    (h : Enforces e history) {move : EnforcerMove}
    {next : Traced EnforcerEvent Enforcer} (hstep : e.Stepped move next) :
    Enforces next.value (history ++ next.events) := by
  have hlater := h.later hstep
  cases hstep with
  | idle | changed => exact hlater
  | aborted => exact ⟨hlater.rules, hlater.result⟩
  | enqueued msg =>
      obtain ⟨hrules, hloop⟩ := governor_enqueue e.governor msg
      exact hlater.governed hrules fun _ hat => hloop.trans hat
  | taken =>
      obtain ⟨hrules, hloop⟩ := governor_take e.governor
      exact hlater.governed hrules hloop
  | @applied calls rl msg r hloop hrules =>
      have hstep : e.governor.step .apply =
          ⟨{ e.governor with loop := .applying msg }, [.handed msg]⟩ := by
        ext1 <;> simp [ProcessGovernor.step, hloop]
      rw [hstep] at hlater ⊢
      refine ⟨hlater.rules, fun result hsome => ⟨msg, rfl, fun hsuccess => ?_⟩⟩
      obtain rfl := Option.some.inj hsome
      refine ⟨history ++ [.governor (.handed msg)], r.events, [], by simp,
        fun step hstep _ => ?_⟩
      dsimp only
      rw [Function.update_self]
      exact (wrote_rules _ hrules).done hsuccess step hstep
  | @finished result hsome =>
      obtain ⟨msg, hloop, -⟩ := h.result result hsome
      have hstep : e.governor.step (.finish result) =
          ⟨{ e.governor.record msg result with loop := .polling },
            [.finished msg result]⟩ := by
        ext1 <;> simp [ProcessGovernor.step, hloop]
      rw [hstep] at hlater ⊢
      exact hlater.finished hsome hloop

/-! Under the changes of the processes lies a run of the governor. -/

theorem governorEvents_append (events later : List EnforcerEvent) :
    governorEvents (events ++ later) =
      governorEvents events ++ governorEvents later :=
  List.filterMap_append

theorem enforcedMsgs_append (events later : List EnforcerEvent) :
    enforcedMsgs (events ++ later) =
      enforcedMsgs events ++ enforcedMsgs later :=
  List.filterMap_append

theorem governorEvents_map (events : List GovernorEvent) :
    governorEvents (events.map .governor) = events := by
  rw [governorEvents, List.filterMap_map]
  exact List.filterMap_some

theorem enforcedMsgs_map (events : List GovernorEvent) :
    enforcedMsgs (events.map .governor) = [] := by
  rw [enforcedMsgs, List.filterMap_map]
  exact List.filterMap_none events

/-- The governor has run so far, and has handed out the messages that were
applied. -/
structure Governs (moves : List GovernorMove) (e : Enforcer)
    (history : List EnforcerEvent) : Prop where
  run : runGovernor moves = ⟨e.governor, governorEvents history⟩
  handed : handedMsgs (governorEvents history) = enforcedMsgs history

theorem Governs.idle {moves : List GovernorMove} {e e' : Enforcer}
    {history events : List EnforcerEvent} (h : Governs moves e history)
    (hsame : e'.governor = e.governor) (hsilent : governorEvents events = [])
    (hnone : enforcedMsgs events = []) :
    Governs (moves ++ []) e' (history ++ events) := by
  constructor
  · rw [List.append_nil, governorEvents_append, hsilent, List.append_nil, hsame]
    exact h.run
  · rw [governorEvents_append, hsilent, List.append_nil, enforcedMsgs_append,
      hnone, List.append_nil]
    exact h.handed

theorem Governs.move {moves : List GovernorMove} {e e' : Enforcer}
    {history events : List EnforcerEvent} (h : Governs moves e history)
    {move : GovernorMove} (hsame : e'.governor = (e.governor.step move).value)
    (hevents : governorEvents events = (e.governor.step move).events)
    (hhanded : handedMsgs (governorEvents events) = enforcedMsgs events) :
    Governs (moves ++ [move]) e' (history ++ events) := by
  constructor
  · have hrun := h.run
    rw [runGovernor, Traced.ext_iff] at hrun ⊢
    rw [Machine.value_run_concat, Machine.events_run_concat, hrun.1, hrun.2,
      hsame, governorEvents_append, hevents]
    exact ⟨rfl, rfl⟩
  · rw [governorEvents_append, handedMsgs, List.filterMap_append,
      enforcedMsgs_append, ← hhanded, ← h.handed]
    rfl

/-- Only a loop that holds a message hands it out. -/
theorem handedMsgs_step {g : ProcessGovernor} {move : GovernorMove}
    (hmove : move ≠ .apply) : handedMsgs (g.step move).events = [] := by
  cases move with
  | apply => exact absurd rfl hmove
  | enqueue msg => rfl
  | take => cases hloop : g.loop <;> simp [ProcessGovernor.step, hloop, handedMsgs]
  | finish result =>
      cases hloop : g.loop <;>
        simp [ProcessGovernor.step, hloop, handedMsgs, GovernorEvent.handed?]

theorem Governs.quiet {moves : List GovernorMove} {e e' : Enforcer}
    {history : List EnforcerEvent} (h : Governs moves e history)
    {move : GovernorMove} (hmove : move ≠ .apply)
    (hsame : e'.governor = (e.governor.step move).value) :
    Governs (moves ++ [move]) e'
      (history ++ (e.governor.step move).events.map .governor) := by
  refine h.move hsame (governorEvents_map _) ?_
  rw [governorEvents_map, handedMsgs_step hmove, enforcedMsgs_map]

theorem Governs.stepped {moves : List GovernorMove} {e : Enforcer}
    {history : List EnforcerEvent} (h : Governs moves e history)
    {move : EnforcerMove} {next : Traced EnforcerEvent Enforcer}
    (hstep : e.Stepped move next) :
    ∃ more, Governs (moves ++ more) next.value (history ++ next.events) ∧
      ∀ msg, .enqueue msg ∈ more → move = .enqueue msg := by
  cases hstep with
  | idle => exact ⟨[], h.idle rfl rfl rfl, by simp⟩
  | aborted => exact ⟨[], h.idle rfl rfl rfl, by simp⟩
  | changed pid target => exact ⟨[], h.idle rfl rfl rfl, by simp⟩
  | enqueued msg =>
      rw [govern_eq]
      exact ⟨[.enqueue msg], h.quiet (by simp) rfl, by simp⟩
  | taken =>
      rw [govern_eq]
      exact ⟨[.take], h.quiet (by simp) rfl, by simp⟩
  | @finished result hresult =>
      exact ⟨[.finish result], h.quiet (by simp) rfl, by simp⟩
  | @applied calls rl msg r hloop hrules =>
      refine ⟨[.apply], h.move rfl ?_ ?_, by simp⟩
      · rw [governorEvents_append, governorEvents_map]
        exact List.append_nil _
      · have hstep : (e.governor.step .apply).events = [.handed msg] := by
          simp [ProcessGovernor.step, hloop]
        rw [hstep]
        rfl

end Enforcer

section Runs

variable (targets : Int32 → Target) (moves : List EnforcerMove)

def ordinary : Target where
  permitted := 3
  affinity := 1
  nice := 0
  limits := fun _ => ⟨1024, 4096⟩
  oomScoreAdj := bytes "0"

def background : GovApplyMsg where
  pid := 7
  cpu := some { nice := some 5 }
  oomScoreAdj := some 500

def allGranted : RuleCalls where
  own := fun _ => ⟨1024, 4096⟩
  limits := fun _ => ⟨1024, 4096⟩
  strerror := fun _ => []

/-- A message is applied while a process other than its own ends. -/
def backgroundMoves : List EnforcerMove :=
  [.enqueue background, .take, .apply allGranted ⟨0, 0⟩, .change 9 ordinary,
    .finish]

/-- The governor's part of a run is a run of the governor. -/
theorem enforcer_governs :
    let run := enforcerMachine.run { targets } moves
    ∃ own, Enforcer.Governs own run.value run.events ∧
      ∀ msg, .enqueue msg ∈ own → .enqueue msg ∈ moves := by
  induction moves using List.reverseRecOn with
  | nil => exact ⟨[], ⟨rfl, rfl⟩, by simp⟩
  | append_singleton moves move ih =>
      intro run
      obtain ⟨own, h, hown⟩ := ih
      simp only [run, Machine.value_run_concat, Machine.events_run_concat]
      obtain ⟨more, hnext, hmore⟩ := h.stepped (Enforcer.stepped _ move)
      refine ⟨own ++ more, hnext, fun msg hmem => ?_⟩
      rcases List.mem_append.mp hmem with hbefore | hlast
      · exact List.mem_append_left _ (hown msg hbefore)
      · rw [hmore msg hlast]
        exact List.mem_append_right _ (List.mem_singleton_self _)

theorem enforcer_kept {pid : Int32} {setting : Setting} :
    let run := enforcerMachine.run { targets } moves
    (∀ event ∈ run.events, ¬event.Touches pid setting) →
      (run.value.targets pid).Agree (targets pid) setting :=
  Machine.history_run (m := enforcerMachine)
    (I := fun e history => (∀ event ∈ history, ¬event.Touches pid setting) →
      (e.targets pid).Agree (targets pid) setting)
    (fun e _ move h huntouched => by
      obtain ⟨hbefore, hlast⟩ := List.forall_mem_append.mp huntouched
      exact ((e.stepped move).kept hlast).trans (h hbefore))
    (fun _ => .refl _ _) moves

theorem discipline_runGovernor {own : List GovernorMove}
    (hpid : ∀ msg, .enqueue msg ∈ own → msg.pid ≠ 0) :
    ProcessGovernor.Discipline (runGovernor own).value
      (runGovernor own).events := by
  have halong : governorMachine.Along
      (fun _ move => ∀ msg, move = .enqueue msg → msg.pid ≠ 0) {} own := by
    rw [Machine.along_iff_forall_split]
    rintro before move after rfl msg rfl
    exact hpid msg (by simp)
  exact Machine.history_along (m := governorMachine)
    (I := ProcessGovernor.Discipline) (fun _ _ _ hI hmove => hI.step hmove)
    ProcessGovernor.initial_discipline halong

/-- Messages are applied in the order in which they were accepted, one after the
other, and no setting of a process changes except by one of them or by somebody
else. -/
theorem messages_applied_in_order
    (hpid : ∀ msg, .enqueue msg ∈ moves → msg.pid ≠ 0) :
    let run := enforcerMachine.run { targets } moves
    acceptedMsgs (governorEvents run.events) =
        enforcedMsgs run.events ++ run.value.governor.inHand ++
          run.value.governor.ingressQueue ∧
      ∀ pid setting, (∀ event ∈ run.events, ¬event.Touches pid setting) →
        (run.value.targets pid).Agree (targets pid) setting := by
  intro run
  refine ⟨?_, fun pid setting => enforcer_kept targets moves⟩
  obtain ⟨own, h, hown⟩ := enforcer_governs targets moves
  have haccepted := (discipline_runGovernor fun msg hmem =>
    hpid msg (hown msg hmem)).accepted
  rw [h.run] at haccepted
  rw [haccepted, h.handed]

theorem background_applied_in_order :
    let run := enforcerMachine.run { targets := fun _ => ordinary }
      backgroundMoves
    acceptedMsgs (governorEvents run.events) =
      enforcedMsgs run.events ++ run.value.governor.inHand ++
        run.value.governor.ingressQueue := by
  refine (messages_applied_in_order (fun _ => ordinary) backgroundMoves ?_).1
  intro msg hmem
  obtain rfl : msg = background := by simpa [backgroundMoves] using hmem
  decide

end Runs

end HeidiKernel.Gov
