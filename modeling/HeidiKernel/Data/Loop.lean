import Mathlib.Logic.Relation

namespace HeidiKernel.Data

/-! The steps of a computation that may fail. -/

section Except

universe u v

variable {α β : Type u} {ε : Type v}

@[simp] theorem pure_eq_ok (a : α) : (pure a : Except ε α) = .ok a := rfl

@[simp] theorem throw_eq_error (e : ε) :
    (throw e : Except ε α) = .error e := rfl

@[simp] theorem ok_bind (a : α) (f : α → Except ε β) :
    (Except.ok a >>= f) = f a := rfl

@[simp] theorem error_bind (e : ε) (f : α → Except ε β) :
    (Except.error e >>= f) = .error e := rfl

theorem bind_eq_ok {x : Except ε α} {f : α → Except ε β} {b : β} :
    (x >>= f) = .ok b ↔ ∃ a, x = .ok a ∧ f a = .ok b := by
  cases x <;> simp

theorem bind_eq_error {x : Except ε α} {f : α → Except ε β} {e : ε} :
    (x >>= f) = .error e ↔
      x = .error e ∨ ∃ a, x = .ok a ∧ f a = .error e := by
  cases x <;> simp

theorem map_eq_ok {x : Except ε α} {f : α → β} {b : β} :
    f <$> x = .ok b ↔ ∃ a, x = .ok a ∧ f a = b := by
  cases x <;> simp [Functor.map, Except.map]

theorem map_eq_error {x : Except ε α} {f : α → β} {e : ε} :
    f <$> x = .error e ↔ x = .error e := by
  cases x <;> simp [Functor.map, Except.map]

theorem mapError_eq_ok {ε' : Type v} {x : Except ε α} {f : ε → ε'} {a : α} :
    x.mapError f = .ok a ↔ x = .ok a := by
  cases x with
  | ok b =>
      change Except.ok b = .ok a ↔ _
      simp
  | error e =>
      constructor
      · intro h
        cases h
      · intro h
        cases h

theorem mapError_eq_error {ε' : Type v} {x : Except ε α} {f : ε → ε'}
    {e : ε'} : x.mapError f = .error e ↔ ∃ e', x = .error e' ∧ f e' = e := by
  cases x with
  | ok b =>
      constructor
      · intro h
        cases h
      · rintro ⟨_, h, _⟩
        cases h
  | error e' =>
      change Except.error (f e') = .error e ↔ _
      simp

/-- A fold whose steps succeed or fail whatever came before succeeds exactly if
every step does. -/
theorem foldlM_succeeds_iff {f : β → α → Except ε β} {P : α → Prop}
    (hstep : ∀ b a, (∃ b', f b a = .ok b') ↔ P a) {items : List α} (b : β) :
    (∃ b', items.foldlM f b = .ok b') ↔ ∀ a ∈ items, P a := by
  induction items generalizing b with
  | nil => simp
  | cons a items ih =>
      rw [List.forall_mem_cons, ← hstep b]
      constructor
      · intro h
        obtain ⟨last, hlast⟩ := h
        rw [List.foldlM_cons, bind_eq_ok] at hlast
        obtain ⟨middle, hmiddle, hrest⟩ := hlast
        exact ⟨⟨middle, hmiddle⟩, (ih middle).mp ⟨last, hrest⟩⟩
      · intro h
        obtain ⟨⟨middle, hmiddle⟩, hsafe⟩ := h
        obtain ⟨last, hrest⟩ := (ih middle).mpr hsafe
        exact ⟨last, by rw [List.foldlM_cons, hmiddle, ok_bind, hrest]⟩

end Except

/-! While loops whose body may fail. The body answers with the next state, or
with nothing when the loop is over. -/

universe u v

variable {σ : Type u} {ε : Type v}

def loop (stuck : σ → ε) (next : σ → Except ε (Option σ)) :
    Nat → σ → Except ε σ
  | 0, s => .error (stuck s)
  | fuel + 1, s =>
      match next s with
      | .error e => .error e
      | .ok none => .ok s
      | .ok (some s') => loop stuck next fuel s'

abbrev Reaches (next : σ → Except ε (Option σ)) : σ → σ → Prop :=
  Relation.ReflTransGen fun s s' => next s = .ok (some s')

section Step

variable {next : σ → Except ε (Option σ)} {s t : σ}

theorem reaches_of_ends (h : next s = .ok none) :
    Reaches next s t ↔ t = s := by
  constructor
  · intro hreach
    rcases hreach.cases_head with heq | ⟨_, hstep, _⟩
    · exact heq.symm
    · simp [h] at hstep
  · intro heq
    rw [heq]

theorem reaches_of_fails {e : ε} (h : next s = .error e) :
    Reaches next s t ↔ t = s := by
  constructor
  · intro hreach
    rcases hreach.cases_head with heq | ⟨_, hstep, _⟩
    · exact heq.symm
    · simp [h] at hstep
  · intro heq
    rw [heq]

theorem reaches_of_moves {s' : σ} (h : next s = .ok (some s')) :
    Reaches next s t ↔ t = s ∨ Reaches next s' t := by
  constructor
  · intro hreach
    rcases hreach.cases_head with heq | ⟨middle, hstep, hrest⟩
    · exact .inl heq.symm
    · rw [h] at hstep
      obtain rfl : s' = middle := by simpa using hstep
      exact .inr hrest
  · intro hcases
    rcases hcases with heq | hrest
    · rw [heq]
    · exact .head h hrest

end Step

section Fuel

variable {stuck : σ → ε} {next : σ → Except ε (Option σ)} {size : σ → Nat}
  (hsize : ∀ s s', next s = .ok (some s') → size s' < size s)

include hsize

/-- With fuel beyond the size of the state a loop ends where its body says
so. -/
theorem loop_eq_ok_iff {fuel : Nat} {s t : σ} (hfuel : size s < fuel) :
    loop stuck next fuel s = .ok t ↔
      Reaches next s t ∧ next t = .ok none := by
  induction fuel generalizing s with
  | zero => exact absurd hfuel (Nat.not_lt_zero _)
  | succ fuel ih =>
      simp only [loop]
      cases hnext : next s with
      | error e =>
          rw [reaches_of_fails hnext]
          constructor
          · intro h
            contradiction
          · intro h
            rw [h.1, hnext] at h
            cases h.2
      | ok answer =>
          cases answer with
          | none =>
              rw [reaches_of_ends hnext]
              constructor
              · intro h
                obtain rfl : s = t := Except.ok.inj h
                exact ⟨rfl, hnext⟩
              · intro h
                rw [h.1]
          | some s' =>
              have hless := hsize s s' hnext
              rw [reaches_of_moves hnext]
              refine (ih (by omega)).trans ?_
              constructor
              · intro h
                exact ⟨.inr h.1, h.2⟩
              · intro h
                rcases h.1 with heq | hreach
                · rw [heq, hnext] at h
                  cases h.2
                · exact ⟨hreach, h.2⟩

/-- With fuel beyond the size of the state a loop only fails where its body
does. -/
theorem loop_eq_error_iff {fuel : Nat} {s : σ} {e : ε}
    (hfuel : size s < fuel) :
    loop stuck next fuel s = .error e ↔
      ∃ t, Reaches next s t ∧ next t = .error e := by
  induction fuel generalizing s with
  | zero => exact absurd hfuel (Nat.not_lt_zero _)
  | succ fuel ih =>
      simp only [loop]
      cases hnext : next s with
      | error e' =>
          constructor
          · intro h
            obtain rfl : e' = e := Except.error.inj h
            exact ⟨s, .refl, hnext⟩
          · intro h
            obtain ⟨t, hreach, herror⟩ := h
            rw [(reaches_of_fails hnext).mp hreach, hnext] at herror
            rw [Except.error.inj herror]
      | ok answer =>
          cases answer with
          | none =>
              constructor
              · intro h
                contradiction
              · intro h
                obtain ⟨t, hreach, herror⟩ := h
                rw [(reaches_of_ends hnext).mp hreach, hnext] at herror
                contradiction
          | some s' =>
              have hless := hsize s s' hnext
              refine (ih (by omega)).trans ?_
              constructor
              · intro h
                obtain ⟨t, hreach, herror⟩ := h
                exact ⟨t, .head hnext hreach, herror⟩
              · intro h
                obtain ⟨t, hreach, herror⟩ := h
                rcases (reaches_of_moves hnext).mp hreach with heq | hrest
                · rw [heq, hnext] at herror
                  contradiction
                · exact ⟨t, hrest, herror⟩

theorem loop_ends {fuel : Nat} {s : σ}
    (hsafe : ∀ t e, next t ≠ .error e) (hfuel : size s < fuel) :
    ∃ t, loop stuck next fuel s = .ok t ∧
      Reaches next s t ∧ next t = .ok none := by
  cases hloop : loop stuck next fuel s with
  | error e =>
      obtain ⟨t, _, herror⟩ := (loop_eq_error_iff hsize hfuel).mp hloop
      exact absurd herror (hsafe t e)
  | ok t => exact ⟨t, rfl, (loop_eq_ok_iff hsize hfuel).mp hloop⟩

end Fuel

end HeidiKernel.Data
