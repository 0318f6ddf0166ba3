import HeidiKernel.Transition.Traced

namespace HeidiKernel.Transition

/-! Deterministic machines driven by a list of inputs, whose inputs carry both
the calls made on the machine and the answers of its environment. -/

structure Machine (σ : Type u) (ι : Type w) (ε : Type v) where
  step : σ → ι → Traced ε σ

namespace Machine

variable {σ ι ε : Type*} (m : Machine σ ι ε)

def run (state : σ) : List ι → Traced ε σ
  | [] => pure state
  | input :: inputs => do
      let next ← m.step state input
      run next inputs

def silent (step : σ → ι → σ) : Machine σ ι Empty where
  step state input := pure (step state input)

@[simp] theorem run_nil (state : σ) : m.run state [] = pure state := rfl

@[simp] theorem value_run_cons (state : σ) (input : ι) (inputs : List ι) :
    (m.run state (input :: inputs)).value =
      (m.run (m.step state input).value inputs).value := rfl

@[simp] theorem events_run_cons (state : σ) (input : ι) (inputs : List ι) :
    (m.run state (input :: inputs)).events =
      (m.step state input).events ++
        (m.run (m.step state input).value inputs).events := rfl

theorem value_run_append (state : σ) (first second : List ι) :
    (m.run state (first ++ second)).value =
      (m.run (m.run state first).value second).value := by
  induction first generalizing state with
  | nil => rfl
  | cons input first ih => exact ih _

theorem events_run_append (state : σ) (first second : List ι) :
    (m.run state (first ++ second)).events =
      (m.run state first).events ++
        (m.run (m.run state first).value second).events := by
  induction first generalizing state with
  | nil => rfl
  | cons input first ih =>
      simp only [List.cons_append, events_run_cons, value_run_cons, ih,
        List.append_assoc]

theorem value_run_concat (state : σ) (inputs : List ι) (last : ι) :
    (m.run state (inputs ++ [last])).value =
      (m.step (m.run state inputs).value last).value := by
  rw [value_run_append]
  rfl

theorem events_run_concat (state : σ) (inputs : List ι) (last : ι) :
    (m.run state (inputs ++ [last])).events =
      (m.run state inputs).events ++
        (m.step (m.run state inputs).value last).events := by
  rw [events_run_append]
  simp

/-- `P` holds of every step of the run, in the state the step starts from. -/
def Along (P : σ → ι → Prop) (state : σ) : List ι → Prop
  | [] => True
  | input :: inputs =>
      P state input ∧ Along P (m.step state input).value inputs

instance decidableAlong (P : σ → ι → Prop)
    [∀ state input, Decidable (P state input)] :
    (state : σ) → (inputs : List ι) → Decidable (m.Along P state inputs)
  | _, [] => .isTrue trivial
  | state, input :: inputs =>
      have := decidableAlong P (m.step state input).value inputs
      inferInstanceAs (Decidable (_ ∧ _))

variable {m}

theorem along_append {P : σ → ι → Prop} {state : σ} {first second : List ι} :
    m.Along P state (first ++ second) ↔
      m.Along P state first ∧ m.Along P (m.run state first).value second := by
  induction first generalizing state with
  | nil => simp [Along]
  | cons input first ih =>
      simp only [List.cons_append, Along, ih, value_run_cons, and_assoc]

theorem along_concat {P : σ → ι → Prop} {state : σ} {inputs : List ι}
    {last : ι} :
    m.Along P state (inputs ++ [last]) ↔
      m.Along P state inputs ∧ P (m.run state inputs).value last := by
  simp [along_append, Along]

theorem along_iff_forall_split {P : σ → ι → Prop} {state : σ}
    {inputs : List ι} :
    m.Along P state inputs ↔
      ∀ before input after, inputs = before ++ input :: after →
        P (m.run state before).value input := by
  constructor
  · rintro h before input after rfl
    exact (along_append.mp h).2.1
  · intro h
    induction inputs generalizing state with
    | nil => trivial
    | cons input inputs ih =>
        refine ⟨h [] input inputs rfl, ih ?_⟩
        rintro before later after rfl
        exact h (input :: before) later after rfl

theorem Along.and {P Q : σ → ι → Prop} {state : σ} {inputs : List ι}
    (h : m.Along P state inputs) (h' : m.Along Q state inputs) :
    m.Along (fun s i => P s i ∧ Q s i) state inputs := by
  rw [along_iff_forall_split] at h h' ⊢
  exact fun before input after split =>
    ⟨h before input after split, h' before input after split⟩

theorem Along.of_forall {P : σ → ι → Prop} (h : ∀ s i, P s i) (state : σ)
    (inputs : List ι) : m.Along P state inputs :=
  along_iff_forall_split.mpr fun _ _ _ _ => h _ _

/-- A condition on the steps of a run that also sees what has been logged. -/
def AlongLog (P : σ → List ε → ι → Prop) (state : σ) (history : List ε) :
    List ι → Prop
  | [] => True
  | input :: inputs =>
      P state history input ∧ AlongLog P (m.step state input).value
        (history ++ (m.step state input).events) inputs

theorem Along.alongLog {P : σ → ι → Prop} {state : σ} {inputs : List ι}
    (h : m.Along P state inputs) (history : List ε) :
    m.AlongLog (fun s _ i => P s i) state history inputs := by
  induction inputs generalizing state history with
  | nil => trivial
  | cons input inputs ih => exact ⟨h.1, ih h.2 _⟩

theorem AlongLog.and {P Q : σ → List ε → ι → Prop} {state : σ}
    {history : List ε} {inputs : List ι}
    (h : m.AlongLog P state history inputs)
    (h' : m.AlongLog Q state history inputs) :
    m.AlongLog (fun s l i => P s l i ∧ Q s l i) state history inputs := by
  induction inputs generalizing state history with
  | nil => trivial
  | cons input inputs ih => exact ⟨⟨h.1, h'.1⟩, ih h.2 h'.2⟩

theorem alongLog_append {P : σ → List ε → ι → Prop} {state : σ}
    {history : List ε} {first second : List ι} :
    m.AlongLog P state history (first ++ second) ↔
      m.AlongLog P state history first ∧
        m.AlongLog P (m.run state first).value
          (history ++ (m.run state first).events) second := by
  induction first generalizing state history with
  | nil => simp [AlongLog]
  | cons input first ih =>
      simp only [List.cons_append, AlongLog, ih, value_run_cons,
        events_run_cons, List.append_assoc, and_assoc]

/-- An invariant of the state and of everything logged so far. A step only has
to keep it where `P` holds. -/
theorem history_alongLog {P : σ → List ε → ι → Prop} {I : σ → List ε → Prop}
    (hstep : ∀ s history i, I s history → P s history i →
      I (m.step s i).value (history ++ (m.step s i).events))
    {state : σ} {history : List ε} {inputs : List ι} (hinit : I state history)
    (halong : m.AlongLog P state history inputs) :
    I (m.run state inputs).value (history ++ (m.run state inputs).events) := by
  induction inputs generalizing state history with
  | nil => simpa using hinit
  | cons input inputs ih =>
      obtain ⟨hfirst, hrest⟩ := halong
      have hnext := hstep state history input hinit hfirst
      rw [events_run_cons, ← List.append_assoc]
      exact ih hnext hrest

theorem history_along {P : σ → ι → Prop} {I : σ → List ε → Prop}
    (hstep : ∀ s history i, I s history → P s i →
      I (m.step s i).value (history ++ (m.step s i).events))
    {state : σ} {history : List ε} {inputs : List ι} (hinit : I state history)
    (halong : m.Along P state inputs) :
    I (m.run state inputs).value (history ++ (m.run state inputs).events) :=
  history_alongLog (P := fun s _ i => P s i) hstep hinit
    (halong.alongLog history)

theorem history_run {I : σ → List ε → Prop}
    (hstep : ∀ s history i, I s history →
      I (m.step s i).value (history ++ (m.step s i).events))
    {state : σ} (hinit : I state []) (inputs : List ι) :
    I (m.run state inputs).value (m.run state inputs).events := by
  have h := history_along (m := m) (P := fun _ _ => True)
    (fun s history i hI _ => hstep s history i hI) hinit
    (Along.of_forall (fun _ _ => trivial) state inputs)
  simpa using h

theorem invariant_along {P : σ → ι → Prop} {I : σ → Prop}
    (hstep : ∀ s i, I s → P s i → I (m.step s i).value)
    {state : σ} {inputs : List ι} (hinit : I state)
    (halong : m.Along P state inputs) : I (m.run state inputs).value := by
  induction inputs generalizing state with
  | nil => exact hinit
  | cons input inputs ih =>
      exact ih (hstep state input hinit halong.1) halong.2

theorem invariant_run {I : σ → Prop}
    (hstep : ∀ s i, I s → I (m.step s i).value) {state : σ}
    (hinit : I state) (inputs : List ι) : I (m.run state inputs).value :=
  invariant_along (P := fun _ _ => True) (fun s i hI _ => hstep s i hI) hinit
    (Along.of_forall (fun _ _ => trivial) state inputs)

/-- Two conditions that agree on good states hold along the same runs, if the
inputs of the run keep the state good. -/
theorem along_congr {P Q : σ → ι → Prop} {I : σ → Prop} {C : ι → Prop}
    (hstep : ∀ s i, I s → C i → I (m.step s i).value)
    (hsame : ∀ s i, I s → C i → (P s i ↔ Q s i))
    {state : σ} {inputs : List ι} (hinit : I state)
    (hinputs : ∀ i ∈ inputs, C i) :
    m.Along P state inputs ↔ m.Along Q state inputs := by
  induction inputs generalizing state with
  | nil => exact Iff.rfl
  | cons input inputs ih =>
      obtain ⟨hinput, hrest⟩ := List.forall_mem_cons.mp hinputs
      exact and_congr (hsame state input hinit hinput)
        (ih (hstep state input hinit hinput) hrest)

/-- What a step from a good state keeps exactly where `P` holds is kept along
exactly the runs all of whose steps satisfy `P`. -/
theorem forall_prefix_iff_along {P : σ → ι → Prop} {I : σ → Prop}
    (hstep : ∀ s i, I s → (I (m.step s i).value ↔ P s i))
    {state : σ} {inputs : List ι} (hinit : I state) :
    (∀ before, before <+: inputs → I (m.run state before).value) ↔
      m.Along P state inputs := by
  induction inputs generalizing state with
  | nil =>
      refine ⟨fun _ => trivial, fun _ before hbefore => ?_⟩
      rwa [List.prefix_nil.mp hbefore]
  | cons input inputs ih =>
      constructor
      · intro h
        have hnext : I (m.step state input).value :=
          h [input] (List.prefix_append [input] inputs)
        exact ⟨(hstep state input hinit).mp hnext,
          (ih hnext).mp fun before hbefore => h (input :: before)
            (List.cons_prefix_cons.mpr ⟨rfl, hbefore⟩)⟩
      · rintro ⟨hfirst, hrest⟩ before hbefore
        rcases List.prefix_cons_iff.mp hbefore with rfl | ⟨later, rfl, hlater⟩
        · exact hinit
        · exact (ih ((hstep state input hinit).mpr hfirst)).mpr hrest later
            hlater

/-- A rank that no input raises is zero after as many inputs that lower it
unless it is zero already. -/
theorem rank_countP {P : σ → ι → Prop} {I : σ → Prop} {f : σ → Nat}
    {g : ι → Bool}
    (hkeep : ∀ s i, I s → P s i → I (m.step s i).value)
    (hle : ∀ s i, I s → P s i → f (m.step s i).value ≤ f s)
    (hlower : ∀ s i, I s → P s i → g i →
      f (m.step s i).value < f s ∨ f (m.step s i).value = 0)
    {state : σ} {inputs : List ι} (hinit : I state)
    (halong : m.Along P state inputs) :
    f (m.run state inputs).value ≤ f state - inputs.countP g := by
  induction inputs generalizing state with
  | nil => exact Nat.le_refl _
  | cons input inputs ih =>
      have hnext := ih (hkeep state input hinit halong.1) halong.2
      have hstep := hle state input hinit halong.1
      rw [value_run_cons, List.countP_cons]
      split_ifs with hgood
      · rcases hlower state input hinit halong.1 hgood with hless | hzero
        · omega
        · omega
      · omega

/-- A rank which every input of the run lowers, unless it is zero already, is
zero after as many inputs. -/
theorem rank_along {P : σ → ι → Prop} {I : σ → Prop} {f : σ → Nat}
    (hkeep : ∀ s i, I s → P s i → I (m.step s i).value)
    (hlower : ∀ s i, I s → P s i →
      f (m.step s i).value < f s ∨ f (m.step s i).value = 0)
    {state : σ} {inputs : List ι} (hinit : I state)
    (halong : m.Along P state inputs) :
    f (m.run state inputs).value ≤ f state - inputs.length := by
  have hall := rank_countP (g := fun _ => true) hkeep
    (fun s i hI hP => by rcases hlower s i hI hP with h | h <;> omega)
    (fun s i hI hP _ => hlower s i hI hP) hinit halong
  rwa [List.countP_true] at hall

section Rounds

/-! A run cut into rounds in which every thread takes a step. In each state one
thread is needed, and it stays so until it takes its step or the rank falls. -/

variable {θ : Type*} {P : σ → ι → Prop} {I : σ → Prop} {f : σ → Nat}
  (needed : σ → θ) (thread : ι → Option θ)

end Rounds

end Machine

end HeidiKernel.Transition
