import HeidiKernel.Data.Loop

namespace HeidiKernel.Data

/-! Two computations that end alike: with related results, or with one
error. -/

universe u u' v w

inductive Alike {ε : Type v} {α : Type u} {β : Type u'} (R : α → β → Prop) :
    Except ε α → Except ε β → Prop
  | ok {a : α} {b : β} : R a b → Alike R (.ok a) (.ok b)
  | error (e : ε) : Alike R (.error e) (.error e)

namespace Alike

variable {ε : Type v}

section Rules

variable {α : Type u} {β : Type u'} {R R' : α → β → Prop}
  {x : Except ε α} {y : Except ε β}

theorem mono (h : Alike R x y) (himp : ∀ a b, R a b → R' a b) :
    Alike R' x y := by
  cases h with
  | ok hab => exact .ok (himp _ _ hab)
  | error e => exact .error e

/-- Where both end well, the results are theirs. -/
theorem results (h : Alike R x y) :
    Alike (fun a b => R a b ∧ x = .ok a ∧ y = .ok b) x y := by
  cases h with
  | ok hab => exact .ok ⟨hab, rfl, rfl⟩
  | error e => exact .error e

theorem mapError {ε' : Type v} (h : Alike R x y) (f : ε → ε') :
    Alike R (x.mapError f) (y.mapError f) := by
  cases h with
  | ok hab => exact .ok hab
  | error e => exact .error (f e)

end Rules

theorem refl {α : Type u} {R : α → α → Prop} (hR : ∀ a, R a a)
    (x : Except ε α) : Alike R x x := by
  cases x with
  | ok a => exact .ok (hR a)
  | error e => exact .error e

theorem bind {α α' : Type u} {β β' : Type u'} {R : α → β → Prop}
    {S : α' → β' → Prop} {x : Except ε α} {y : Except ε β}
    {f : α → Except ε α'} {g : β → Except ε β'} (h : Alike R x y)
    (hstep : ∀ a b, R a b → Alike S (f a) (g b)) :
    Alike S (x >>= f) (y >>= g) := by
  cases h with
  | ok hab => exact hstep _ _ hab
  | error e => exact .error e

/-- Loops whose bodies keep in step end alike. -/
theorem loop {σ : Type u} {τ : Type u'} {R : σ → τ → Prop}
    {stuck : σ → ε} {stuck' : τ → ε} {next : σ → Except ε (Option σ)}
    {next' : τ → Except ε (Option τ)} {size : σ → Nat} {size' : τ → Nat}
    (hsize : ∀ s t, next s = .ok (some t) → size t < size s)
    (hsize' : ∀ s t, next' s = .ok (some t) → size' t < size' s)
    (hstep : ∀ s s', R s s' → Alike (Option.Rel R) (next s) (next' s'))
    {fuel fuel' : Nat} {s : σ} {s' : τ} (h : R s s')
    (hfuel : size s < fuel) (hfuel' : size' s' < fuel') :
    Alike R (Data.loop stuck next fuel s)
      (Data.loop stuck' next' fuel' s') := by
  induction fuel generalizing fuel' s s' with
  | zero => exact absurd hfuel (Nat.not_lt_zero _)
  | succ fuel ih =>
      cases fuel' with
      | zero => exact absurd hfuel' (Nat.not_lt_zero _)
      | succ fuel' =>
          have hmove := hstep s s' h
          simp only [Data.loop]
          cases hnext : next s with
          | error e =>
              rw [hnext] at hmove
              generalize hnext' : next' s' = answer at hmove
              cases hmove with
              | error => exact .error e
          | ok found =>
              rw [hnext] at hmove
              generalize hnext' : next' s' = answer at hmove
              cases hmove with
              | ok hrel =>
                  cases hrel with
                  | none => exact .ok h
                  | some hnew =>
                      have hless := hsize _ _ hnext
                      have hless' := hsize' _ _ hnext'
                      exact ih hnew (by omega) (by omega)

end Alike

end HeidiKernel.Data
