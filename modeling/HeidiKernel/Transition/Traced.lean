import Mathlib.Data.List.Basic

namespace HeidiKernel.Transition

/-! Computations that log what they did. The log is a list of events in the
order in which they happened. -/

@[ext] structure Traced (ε : Type u) (α : Type v) where
  value : α
  events : List ε

namespace Traced

variable {ε : Type u} {α β : Type v}

def log (event : ε) : Traced ε PUnit := ⟨⟨⟩, [event]⟩

instance : Monad (Traced ε) where
  pure value := ⟨value, []⟩
  bind first next :=
    ⟨(next first.value).value, first.events ++ (next first.value).events⟩

@[simp] theorem value_pure (value : α) :
    (pure value : Traced ε α).value = value := rfl

@[simp] theorem events_pure (value : α) :
    (pure value : Traced ε α).events = [] := rfl

@[simp] theorem value_bind (first : Traced ε α) (next : α → Traced ε β) :
    (first >>= next).value = (next first.value).value := rfl

@[simp] theorem events_bind (first : Traced ε α) (next : α → Traced ε β) :
    (first >>= next).events =
      first.events ++ (next first.value).events := rfl

@[simp] theorem value_map (f : α → β) (first : Traced ε α) :
    (f <$> first).value = f first.value := rfl

@[simp] theorem events_map (f : α → β) (first : Traced ε α) :
    (f <$> first).events = first.events := by
  change first.events ++ [] = first.events
  exact List.append_nil _

@[simp] theorem events_log (event : ε) :
    (log event : Traced ε PUnit).events = [event] := rfl

/-- The same computation inside a larger one, whose log names the events
differently. -/
def relabel {ε' : Type w} (f : ε → ε') (x : Traced ε α) : Traced ε' α :=
  ⟨x.value, x.events.map f⟩

@[simp] theorem value_relabel {ε' : Type w} (f : ε → ε') (x : Traced ε α) :
    (x.relabel f).value = x.value := rfl

@[simp] theorem events_relabel {ε' : Type w} (f : ε → ε') (x : Traced ε α) :
    (x.relabel f).events = x.events.map f := rfl

end Traced

/-- Every event of a log is one that its past allows. -/
def Recorded {ε : Type u} (P : List ε → ε → Prop) (history : List ε) : Prop :=
  ∀ before event after, history = before ++ event :: after → P before event

namespace Recorded

variable {ε : Type u} {P Q : List ε → ε → Prop} {history : List ε} {event : ε}

theorem nil : Recorded P [] := by
  intro before event after h
  simp at h

theorem concat (h : Recorded P history) (hevent : P history event) :
    Recorded P (history ++ [event]) := by
  intro before later after hsplit
  rcases List.eq_nil_or_concat' after with rfl | ⟨rest, last, rfl⟩
  · obtain ⟨rfl, hlast⟩ := List.append_inj' hsplit rfl
    obtain rfl : event = later := List.head_eq_of_cons_eq hlast
    exact hevent
  · apply h before later rest
    rw [← List.cons_append, ← List.append_assoc] at hsplit
    exact (List.append_inj' hsplit rfl).1

theorem of_concat (h : Recorded P (history ++ [event])) :
    Recorded P history ∧ P history event := by
  refine ⟨?_, h history event [] rfl⟩
  rintro before earlier after rfl
  exact h before earlier (after ++ [event]) (by simp)

theorem mono (h : Recorded P history)
    (hPQ : ∀ before event, P before event → Q before event) :
    Recorded Q history :=
  fun before event after hsplit => hPQ before event (h before event after hsplit)

end Recorded

end HeidiKernel.Transition
