import HeidiKernel.Governor.ProcessGovernor
import Mathlib.Algebra.Group.Nat.Defs

namespace HeidiKernel.Gov

open HeidiKernel.Transition

/-! The size of the rule table. The header declares a limit for it that
`apply_loop` does not look at. -/

def kMaxRules : Nat := 1024

namespace ProcessGovernor

/-- What `get_stats` reports as `rules_count`. -/
def rulesCount (g : ProcessGovernor) : Nat := g.rules.keys.length

theorem rulesCount_insert_of_mem {g : ProcessGovernor} {pid : Int32}
    (hmem : pid ∈ g.rules) (msg : GovApplyMsg) :
    (g.rules.insert pid msg).keys.length = g.rulesCount := by
  have hkeys : pid ∈ g.rules.keys := AList.mem_keys.mp hmem
  have hpos := List.length_pos_of_mem hkeys
  rw [AList.keys_insert, List.length_cons, List.length_erase_of_mem hkeys,
    rulesCount]
  omega

theorem rulesCount_insert_of_not_mem {g : ProcessGovernor} {pid : Int32}
    (hmem : pid ∉ g.rules) (msg : GovApplyMsg) :
    (g.rules.insert pid msg).keys.length = g.rulesCount + 1 := by
  have hkeys : pid ∉ g.rules.keys := fun h => hmem (AList.mem_keys.mpr h)
  rw [AList.keys_insert, List.length_cons, List.erase_of_not_mem hkeys,
    rulesCount]

/-- A move that stores a rule stores it for a pid that has one already, or
while the table is below its limit. -/
def RoomForRule (g : ProcessGovernor) : GovernorMove → Prop
  | .finish result =>
      ∀ msg, g.loop = .applying msg → result.success = true →
        msg.pid ∈ g.rules ∨ g.rulesCount < kMaxRules
  | .enqueue _ | .take | .apply => True

/-- What a move can do to the rules: nothing, or store the message it has
applied. -/
theorem rules_step (g : ProcessGovernor) (move : GovernorMove) :
    (g.step move).value.rules = g.rules ∧ g.RoomForRule move ∨
      ∃ msg result, move = .finish result ∧ g.loop = .applying msg ∧
        result.success = true ∧
        (g.step move).value.rules = g.rules.insert msg.pid msg := by
  cases move with
  | enqueue msg =>
      left
      simp only [step, enqueue]
      split <;> exact ⟨rfl, trivial⟩
  | take =>
      left
      cases hloop : g.loop <;> simp [step, hloop, takeFront, RoomForRule]
  | apply =>
      left
      cases hloop : g.loop <;> simp [step, hloop, RoomForRule]
  | finish result =>
      cases hloop : g.loop with
      | polling | holding msg =>
          left
          simp [step, hloop, RoomForRule]
      | applying msg =>
          cases hsuccess : result.success with
          | false =>
              left
              simp [step, hloop, record, hsuccess, RoomForRule]
          | true =>
              right
              exact ⟨msg, result, rfl, rfl, hsuccess, by
                simp [step, hloop, record, hsuccess]⟩

/-- The step lemma: the table stays within its limit exactly at the moves that
find room. -/
theorem rulesCount_step_iff {g : ProcessGovernor} {move : GovernorMove}
    (hbound : g.rulesCount ≤ kMaxRules) :
    (g.step move).value.rulesCount ≤ kMaxRules ↔ g.RoomForRule move := by
  obtain ⟨hrules, hroom⟩ | ⟨msg, result, rfl, hloop, hsuccess, hrules⟩ :=
    rules_step g move
  · rw [rulesCount, hrules]
    exact ⟨fun _ => hroom, fun _ => hbound⟩
  · have hroom : g.RoomForRule (.finish result) ↔
        msg.pid ∈ g.rules ∨ g.rulesCount < kMaxRules := by
      simp [RoomForRule, hloop, hsuccess]
    rw [hroom, rulesCount, hrules]
    by_cases hmem : msg.pid ∈ g.rules
    · rw [rulesCount_insert_of_mem hmem]
      exact ⟨fun _ => .inl hmem, fun _ => hbound⟩
    · rw [rulesCount_insert_of_not_mem hmem]
      exact ⟨.inr, fun h => h.resolve_left hmem⟩

end ProcessGovernor

/-- At every point of the run, the table is within its limit. -/
def BoundedRules (moves : List GovernorMove) : Prop :=
  ∀ before, before <+: moves →
    (runGovernor before).value.rulesCount ≤ kMaxRules

/-- The table stays within its limit along exactly the runs that never store
the rule of a new pid in a full table. -/
theorem boundedRules_iff (moves : List GovernorMove) :
    BoundedRules moves ↔
      governorMachine.Along ProcessGovernor.RoomForRule {} moves :=
  Machine.forall_prefix_iff_along (m := governorMachine)
    (I := fun g : ProcessGovernor => g.rulesCount ≤ kMaxRules)
    (fun _ _ hbound => ProcessGovernor.rulesCount_step_iff hbound)
    (Nat.zero_le _)

section ManyPids

/-! Processes that come one after the other, each governed once. -/

def govern (pid : Int32) : List GovernorMove :=
  [.enqueue { pid }, .take, .apply, .finish { success := true }]

def governFirst : Nat → List GovernorMove
  | 0 => []
  | n + 1 => governFirst n ++ govern (Int32.ofNat (n + 1))

/-- What governing one more process does to an idle governor. -/
theorem run_govern {g : ProcessGovernor} {pid : Int32} (hpid : pid ≠ 0)
    (hqueue : g.ingressQueue = []) (hloop : g.loop = .polling) :
    (governorMachine.run g (govern pid)).value =
      { g with
        stats := { g.stats with
          messagesProcessed := g.stats.messagesProcessed + 1 }
        rules := g.rules.insert pid { pid } } := by
  obtain ⟨queue, rules, stats, loop⟩ := g
  obtain rfl : queue = [] := hqueue
  obtain rfl : loop = .polling := hloop
  simp [governorMachine, govern, ProcessGovernor.step,
    ProcessGovernor.enqueue, ProcessGovernor.takeFront,
    ProcessGovernor.record, kQueueCapacity, hpid]

/-- The loop is idle and the table has a rule for each of `n` pids. -/
structure GovernsFirst (n : Nat) (g : ProcessGovernor) : Prop where
  queue : g.ingressQueue = []
  loop : g.loop = .polling
  count : g.rulesCount = n
  pids : ∀ pid ∈ g.rules, pid.toInt ≤ n

theorem GovernsFirst.next {n : Nat} {g : ProcessGovernor}
    (h : GovernsFirst n g) (hn : n + 1 < 2 ^ 31) :
    GovernsFirst (n + 1)
      (governorMachine.run g (govern (Int32.ofNat (n + 1)))).value := by
  have hint : (Int32.ofNat (n + 1)).toInt = (n + 1 : Nat) :=
    Int32.toInt_ofNat_of_lt hn
  have hzero : Int32.ofNat (n + 1) ≠ 0 := by
    intro heq
    rw [heq] at hint
    exact absurd hint.symm (Int.natCast_ne_zero.mpr (Nat.succ_ne_zero n))
  have hnew : Int32.ofNat (n + 1) ∉ g.rules := by
    intro hmem
    have hle := h.pids _ hmem
    omega
  rw [run_govern hzero h.queue h.loop]
  constructor
  case queue => exact h.queue
  case loop => exact h.loop
  case count =>
    have hcount := ProcessGovernor.rulesCount_insert_of_not_mem hnew
      { pid := Int32.ofNat (n + 1) }
    rwa [h.count] at hcount
  case pids =>
    intro pid hpid
    rcases (AList.mem_insert _).mp hpid with rfl | hold
    · exact Int.le_of_eq hint
    · have hle := h.pids pid hold
      omega

theorem governsFirst_run {n : Nat} (hn : n < 2 ^ 31) :
    GovernsFirst n (runGovernor (governFirst n)).value := by
  induction n with
  | zero =>
      exact ⟨rfl, rfl, rfl, fun pid hpid => absurd hpid (AList.notMem_empty pid)⟩
  | succ n ih =>
      rw [runGovernor, governFirst, Machine.value_run_append]
      exact (ih (by omega)).next hn

/-- One process more than the limit, and all of them keep a rule. -/
theorem governFirst_overflow :
    ¬ ∀ moves, BoundedRules moves := by
  intro h
  have hbound := h (governFirst (kMaxRules + 1)) _ List.prefix_rfl
  have hcount := (governsFirst_run (n := kMaxRules + 1) (by decide)).count
  omega

end ManyPids

end HeidiKernel.Gov
