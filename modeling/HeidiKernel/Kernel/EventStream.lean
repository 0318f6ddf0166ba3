import HeidiKernel.Kernel.RingBuffer
import HeidiKernel.Transition.Machine
import Mathlib.Data.List.ModifyLast

namespace HeidiKernel

open HeidiKernel.Transition

/-! The event stream of the status socket. A call of `publish_event` pushes its
event and sends it to the subscribers in two steps under different mutexes; a
`SUBSCRIBE` adds its client and replays the ring under the second one. Sends
never fail and no subscriber leaves. -/

structure Subscriber (ε : Type) where
  fd : Int
  received : List ε := []
  /-- How many events had been pushed when the client was added. -/
  joinedAt : Nat
  deriving DecidableEq, Repr

/-- The socket with its calls in progress and all events ever pushed, in the
order of the ring. -/
structure EventStream (ε : Type) where
  ringBuffer : RingBuffer ε
  subscribers : List (Subscriber ε) := []
  /-- The events of the calls that have pushed and not yet sent. -/
  publishing : List ε := []
  /-- `handle_client` holds `subscribers_mutex_`: it has added its client and
  not yet replayed. -/
  replaying : Bool := false
  pushed : List ε := []
  deriving DecidableEq, Repr

inductive StreamMove (ε : Type)
  | push (event : ε)
  | broadcast (call : Nat)
  | join (clientFd : Int)
  | replay

namespace Subscriber

def send {ε : Type} (events : List ε) (subscriber : Subscriber ε) :
    Subscriber ε :=
  { subscriber with received := subscriber.received ++ events }

end Subscriber

namespace EventStream

variable {ε : Type}

def create (blank : ε) : EventStream ε where
  ringBuffer := .create 100 blank

/-- The event a call sends next, if there is one and the mutex is free. -/
def sending? (call : Nat) (s : EventStream ε) : Option ε :=
  if s.replaying then none else s.publishing[call]?

/-- A step that needs the mutex while another thread holds it has to wait. -/
def step (s : EventStream ε) : StreamMove ε → EventStream ε
  | .push event =>
      { s with
        ringBuffer := s.ringBuffer.push event
        publishing := s.publishing ++ [event]
        pushed := s.pushed ++ [event] }
  | .broadcast call =>
      match s.sending? call with
      | none => s
      | some event =>
          { s with
            subscribers := s.subscribers.map (Subscriber.send [event])
            publishing := s.publishing.eraseIdx call }
  | .join clientFd =>
      if s.replaying then
        s
      else
        { s with
          subscribers := s.subscribers ++
            [{ fd := clientFd, joinedAt := s.pushed.length }]
          replaying := true }
  | .replay =>
      if s.replaying then
        { s with
          subscribers := s.subscribers.modifyLast
            (Subscriber.send (s.ringBuffer.lastN 100))
          replaying := false }
      else
        s

end EventStream

def streamMachine (ε : Type) : Machine (EventStream ε) (StreamMove ε) Empty :=
  .silent EventStream.step

def runStream {ε : Type} (blank : ε) (moves : List (StreamMove ε)) :
    EventStream ε :=
  ((streamMachine ε).run (.create blank) moves).value

namespace EventStream

variable {ε : Type} {s : EventStream ε}

/-- What every subscriber has received is a contiguous run of the pushed events
that starts at most a hundred events before it was added, and nothing is
missing once no call is in progress. -/
def ExactlyOnce (s : EventStream ε) : Prop :=
  ∀ subscriber ∈ s.subscribers, ∃ start ≤ subscriber.joinedAt,
    subscriber.joinedAt ≤ start + 100 ∧
      subscriber.received <+: s.pushed.drop start ∧
      (s.publishing = [] → s.replaying = false →
        subscriber.received = s.pushed.drop start)

instance [DecidableEq ε] (s : EventStream ε) : Decidable s.ExactlyOnce :=
  inferInstanceAs (Decidable (∀ subscriber ∈ s.subscribers,
    ∃ start ≤ subscriber.joinedAt, _))

/-- Calls send in the order of their pushes, and a replay finds no call between
its push and its send. -/
def InOrder (s : EventStream ε) : StreamMove ε → Prop
  | .push _ | .join _ => True
  | .broadcast call => s.sending? call = none ∨ call = 0 ∨ s.subscribers = []
  | .replay => s.replaying = true → s.publishing = []

/-- The events a subscriber still has to receive are those of the calls in
progress, in this order. -/
def Served (s : EventStream ε) (subscriber : Subscriber ε) : Prop :=
  ∃ start ≤ subscriber.joinedAt, subscriber.joinedAt ≤ start + 100 ∧
    start ≤ s.pushed.length ∧
    subscriber.received ++ s.publishing = s.pushed.drop start

/-- The client that waits for its replay was added after the pushes of all
calls but those in progress. -/
def Awaiting (s : EventStream ε) (subscriber : Subscriber ε) : Prop :=
  subscriber.received = [] ∧ subscriber.joinedAt ≤ s.pushed.length ∧
    s.pushed.length ≤ subscriber.joinedAt + s.publishing.length

structure Invariant (s : EventStream ε) : Prop where
  capacity : s.ringBuffer.capacity = 100
  ring : s.ringBuffer.Holds s.pushed
  served : s.replaying = false → ∀ subscriber ∈ s.subscribers,
    s.Served subscriber
  awaiting : s.replaying = true → ∃ earlier last,
    s.subscribers = earlier ++ [last] ∧ s.Awaiting last ∧
      ∀ subscriber ∈ earlier, s.Served subscriber

theorem create_invariant (blank : ε) : (create blank).Invariant where
  capacity := rfl
  ring := RingBuffer.create_holds (by decide) blank
  served := by simp [create]
  awaiting := by simp [create]

theorem Served.push {subscriber : Subscriber ε} (h : s.Served subscriber)
    (event : ε) : (s.step (.push event)).Served subscriber := by
  obtain ⟨start, hstart, hrecent, hle, heq⟩ := h
  refine ⟨start, hstart, hrecent, ?_, ?_⟩
  · simp only [step, List.length_append]
    omega
  · simp only [step]
    rw [List.drop_append_of_le_length hle, ← heq, List.append_assoc]

theorem Awaiting.push {subscriber : Subscriber ε} (h : s.Awaiting subscriber)
    (event : ε) : (s.step (.push event)).Awaiting subscriber := by
  obtain ⟨hnothing, hbefore, hsince⟩ := h
  refine ⟨hnothing, ?_, ?_⟩ <;> simp only [step, List.length_append] <;> omega

namespace Invariant

variable (h : s.Invariant)

include h

theorem push (event : ε) : (s.step (.push event)).Invariant where
  capacity := h.capacity
  ring := h.ring.push event
  served hfree subscriber hmem := (h.served hfree subscriber hmem).push event
  awaiting hheld := by
    obtain ⟨earlier, last, hsplit, hlast, hearlier⟩ := h.awaiting hheld
    exact ⟨earlier, last, hsplit, hlast.push event,
      fun subscriber hmem => (hearlier subscriber hmem).push event⟩

/-- The oldest call sends the event every subscriber is to receive next. -/
theorem broadcast (call : Nat)
    (horder : s.InOrder (.broadcast call)) :
    (s.step (.broadcast call)).Invariant := by
  cases hsending : s.sending? call with
  | none =>
      have hsame : s.step (.broadcast call) = s := by simp [step, hsending]
      rw [hsame]
      exact h
  | some event =>
      have hfree : s.replaying = false := by
        cases hheld : s.replaying with
        | false => rfl
        | true => simp [sending?, hheld] at hsending
      have hcall : s.publishing[call]? = some event := by
        simpa [sending?, hfree] using hsending
      have hstep : s.step (.broadcast call) =
          { s with
            subscribers := s.subscribers.map (Subscriber.send [event])
            publishing := s.publishing.eraseIdx call } := by
        simp [step, hsending]
      rw [hstep]
      refine ⟨h.capacity, h.ring, fun _ subscriber hmem => ?_, ?_⟩
      · obtain ⟨before, hbefore, rfl⟩ := List.mem_map.mp hmem
        obtain rfl : call = 0 := by
          rcases horder with hnone | holdest | hnobody
          · rw [hsending] at hnone
            contradiction
          · exact holdest
          · rw [hnobody] at hbefore
            contradiction
        obtain ⟨start, hstart, hrecent, hle, heq⟩ :=
          h.served hfree before hbefore
        refine ⟨start, hstart, hrecent, hle, ?_⟩
        obtain ⟨rest, hrest⟩ : ∃ rest, s.publishing = event :: rest :=
          List.head?_eq_some_iff.mp (List.head?_eq_getElem? ▸ hcall)
        simp only [Subscriber.send, hrest, List.eraseIdx_cons_zero] at heq ⊢
        rw [← heq, List.append_assoc]
        rfl
      · intro hheld
        rw [hfree] at hheld
        contradiction

theorem join (clientFd : Int) : (s.step (.join clientFd)).Invariant := by
  cases hheld : s.replaying with
  | true =>
      have hsame : s.step (.join clientFd) = s := by simp [step, hheld]
      rw [hsame]
      exact h
  | false =>
      have hstep : s.step (.join clientFd) =
          { s with
            subscribers := s.subscribers ++
              [{ fd := clientFd, joinedAt := s.pushed.length }]
            replaying := true } := by
        simp [step, hheld]
      rw [hstep]
      refine ⟨h.capacity, h.ring, fun hfree => by contradiction, fun _ => ?_⟩
      exact ⟨s.subscribers, _, rfl, ⟨rfl, Nat.le_refl _, Nat.le_add_right _ _⟩,
        h.served hheld⟩

theorem replay (horder : s.InOrder .replay) :
    (s.step .replay).Invariant := by
  cases hheld : s.replaying with
  | false =>
      have hsame : s.step .replay = s := by simp [step, hheld]
      rw [hsame]
      exact h
  | true =>
      have hidle : s.publishing = [] := horder hheld
      obtain ⟨earlier, last, hsplit, hlast, hearlier⟩ := h.awaiting hheld
      obtain ⟨hnothing, hbefore, hsince⟩ := hlast
      have hjoined : last.joinedAt = s.pushed.length := by
        simp only [hidle, List.length_nil] at hsince
        omega
      have hreplayed := h.ring.lastN_eq 100
      rw [h.capacity, Nat.min_self] at hreplayed
      have hstep : s.step .replay =
          { s with
            subscribers := earlier ++
              [last.send (s.pushed.drop (s.pushed.length - 100))]
            replaying := false } := by
        simp [EventStream.step, hheld, hsplit, hreplayed,
          List.modifyLast_concat]
      rw [hstep]
      refine ⟨h.capacity, h.ring, fun _ subscriber hmem => ?_,
        fun hlocked => by contradiction⟩
      rcases List.mem_append.mp hmem with hold | hnew
      · exact hearlier subscriber hold
      · rw [List.mem_singleton.mp hnew]
        refine ⟨s.pushed.length - 100, ?_, ?_, Nat.sub_le _ _, ?_⟩
        · simp only [Subscriber.send, hjoined]
          omega
        · simp only [Subscriber.send, hjoined]
          omega
        · simp [Subscriber.send, hnothing, hidle]

theorem step (move : StreamMove ε) (horder : s.InOrder move) :
    (s.step move).Invariant := by
  cases move with
  | push event => exact h.push event
  | broadcast call => exact h.broadcast call horder
  | join clientFd => exact h.join clientFd
  | replay => exact h.replay horder

theorem exactlyOnce : s.ExactlyOnce := by
  intro subscriber hmem
  have hserved : s.Served subscriber → ∃ start ≤ subscriber.joinedAt,
      subscriber.joinedAt ≤ start + 100 ∧
        subscriber.received <+: s.pushed.drop start ∧
        (s.publishing = [] → s.replaying = false →
          subscriber.received = s.pushed.drop start) := by
    rintro ⟨start, hstart, hrecent, _, heq⟩
    refine ⟨start, hstart, hrecent, ⟨s.publishing, heq⟩, ?_⟩
    intro hidle _
    rwa [hidle, List.append_nil] at heq
  cases hheld : s.replaying with
  | false =>
      have := hserved (h.served hheld subscriber hmem)
      rwa [hheld] at this
  | true =>
      obtain ⟨earlier, last, hsplit, hlast, hearlier⟩ := h.awaiting hheld
      rw [hsplit] at hmem
      rcases List.mem_append.mp hmem with hold | hnew
      · have := hserved (hearlier subscriber hold)
        rwa [hheld] at this
      · rw [List.mem_singleton.mp hnew]
        refine ⟨last.joinedAt, Nat.le_refl _, Nat.le_add_right _ _, ?_, ?_⟩
        · rw [hlast.1]
          exact List.nil_prefix
        · intro _ hfree
          contradiction

end Invariant

/-- In a run whose calls send in the order of their pushes and whose replays
find no call in progress, every subscriber receives every event once. -/
theorem exactlyOnce_of_inOrder (blank : ε) {moves : List (StreamMove ε)}
    (horder : (streamMachine ε).Along InOrder (create blank) moves) :
    ∀ before after, moves = before ++ after →
      (runStream blank before).ExactlyOnce := by
  rintro before after rfl
  have hinvariant := Machine.invariant_along (m := streamMachine ε)
    (P := InOrder) (I := Invariant) (fun _ move hI hP => hI.step move hP)
    (create_invariant blank) (Machine.along_append.mp horder).1
  exact hinvariant.exactlyOnce

def orderlyMoves : List (StreamMove Nat) :=
  [.push 1, .broadcast 0, .join 7, .replay, .push 2, .broadcast 0]

theorem orderlyMoves_exactlyOnce :
    (runStream 0 orderlyMoves).ExactlyOnce :=
  @exactlyOnce_of_inOrder Nat 0 orderlyMoves
    ⟨trivial, .inr (.inl rfl), trivial, fun _ => rfl, trivial,
      .inr (.inl rfl), trivial⟩ orderlyMoves [] (by simp)

/-- A client added between the push and the send of a call receives the event
twice; two calls that send in the other order turn their events round. -/
theorem overlapping_calls_repeat_and_reorder :
    (runStream 0 [.push 1, .join 7, .replay, .broadcast 0]).subscribers.map
        Subscriber.received = [[1, 1]] ∧
      ¬(runStream 0 [.push 1, .join 7, .replay, .broadcast 0]).ExactlyOnce ∧
      (runStream 0 [.join 7, .replay, .push 1, .push 2, .broadcast 1,
        .broadcast 0]).subscribers.map Subscriber.received = [[2, 1]] ∧
      ¬(runStream 0 [.join 7, .replay, .push 1, .push 2, .broadcast 1,
        .broadcast 0]).ExactlyOnce := by
  decide +kernel

end EventStream

end HeidiKernel
