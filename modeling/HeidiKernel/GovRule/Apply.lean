import HeidiKernel.GovRule.Object

namespace HeidiKernel.Gov

open HeidiKernel.Data

/-! The members of the payload. -/

def storeLiteral (draft : Draft) (m : Literal) : Draft :=
  if m.key = bytes "pid" then
    ⟨{ draft.msg with pid := Int32.ofInt (intOf m.text) }, true⟩
  else if m.key = bytes "oom_score_adj" then
    { draft with msg := { draft.msg with
        oomScoreAdj := some (Int32.ofInt (intOf m.text)) } }
  else
    draft

def storeObject (draft : Draft) (key : Bytes) (fields : List Literal) :
    Draft :=
  let msg := draft.msg
  if key = bytes "cpu" then
    { draft with msg := { msg with cpu := some (fields.foldl storeCpu {}) } }
  else if key = bytes "mem" then
    { draft with msg := { msg with mem := some (fields.foldl storeMem {}) } }
  else if key = bytes "pids" then
    { draft with msg := { msg with pids := some (fields.foldl storePids {}) } }
  else if key = bytes "rlim" then
    { draft with msg := { msg with rlim := some (fields.foldl storeRlim {}) } }
  else
    draft

def storeMember (draft : Draft) : Member → Draft
  | .literal m => storeLiteral draft m
  | .object key fields => storeObject draft key fields

/-- A reader takes the sub-objects with the fields of one table. -/
structure ObjectReader {σ : Type} (table : Table)
    (read : Bytes → Except Exit (Cursor σ)) (store : List Literal → σ) :
    Prop where
  accepts : ∀ {s c}, read s = .ok c ↔
    ∃ body fields, ObjectAt s body c.view ∧
      Passes (FieldItem table) body fields [] ∧ c.value = store fields
  faults : ∀ {s}, (∃ f, read s = .error (.fault f)) ↔
    LoneBrace s ∨ ∃ body rest, ObjectAt s body rest ∧
      Overrun (FieldItem table) (FieldOverruns table) body
  nacks : ∀ {s code detail},
    read s = .error (.nack code detail) → code ≠ .ack

theorem FieldSpec.objectReader {σ τ : Type} {table : Table}
    {field : Bytes → Bytes → σ → Except Exit (Cursor σ)}
    {apply : σ → Literal → σ}
    (h : FieldSpec field (FieldItem table) (FieldOverruns table) apply)
    (name : Bytes) (init : σ) (store : σ → τ) :
    ObjectReader table (parseObject name field init store)
      fun fields => store (fields.foldl apply init) where
  accepts := parseObject_eq_ok_iff h
  faults := parseObject_faults_iff h
  nacks := parseObject_nacks h

/-- What `applyField` does under one key. -/
inductive Dispatch (key : Bytes) (draft : Draft) : Option Value → Prop
  | unknown {detail : Bytes} :
      (∀ s, applyField key s draft =
        .error (.nack .nackUnknownField detail)) →
      Dispatch key draft none
  | literal {kind : Kind} :
      Reader kind (applyField key · draft)
        (fun text => storeMember draft (.literal ⟨key, text⟩)) →
      Dispatch key draft (some (.literal kind))
  | object {table : Table} :
      ObjectReader table (applyField key · draft)
        (fun fields => storeMember draft (.object key fields)) →
      Dispatch key draft (some (.object table))

theorem pid_reader {code : AckCode} {detail positive : Bytes}
    (hcode : code ≠ .ack) (draft : Draft) :
    Reader (.int 1 (2 ^ 63 - 1))
      (readField parseIntValue code detail fun val =>
        if val ≤ 0 then
          throw (.nack .nackInvalidPid positive)
        else
          pure ⟨{ draft.msg with pid := Int32.ofInt val }, true⟩)
      fun text =>
        (⟨{ draft.msg with pid := Int32.ofInt (intOf text) }, true⟩ :
          Draft) := by
  have hpid := int_converts (show (-2 ^ 63 : Int) ≤ 1 by decide)
    (show (2 ^ 63 - 1 : Int) < 2 ^ 63 by decide)
  refine hpid.reader hcode (fun val =>
    (⟨{ draft.msg with pid := Int32.ofInt val }, true⟩ : Draft)) ?_ ?_
  · intro text value hover
    simp only [Kind.Overruns, Kind.Accepts] at hover ⊢
    split_ifs with hsign
    · have hnot : ¬1 ≤ intOf text := by omega
      simp [hnot]
    · have haccepts : 1 ≤ intOf text ∧ intOf text ≤ 2 ^ 63 - 1 := by omega
      simp only [haccepts, and_self, true_and, pure_eq_ok,
        Except.ok.injEq, eq_comm]
  · intro val e hput
    split_ifs at hput <;> cases hput
    intro hack
    contradiction

theorem oom_reader {code : AckCode} {detail range : Bytes}
    (hcode : code ≠ .ack) (draft : Draft) :
    Reader (.int (-1000) 1000)
      (readField parseIntValue code detail fun val =>
        if val < -1000 ∨ 1000 < val then
          throw (.nack .nackInvalidRange range)
        else
          pure { draft with msg := { draft.msg with
            oomScoreAdj := some (Int32.ofInt val) } })
      fun text =>
        ({ draft with msg := { draft.msg with
          oomScoreAdj := some (Int32.ofInt (intOf text)) } } : Draft) := by
  have hoom := int_converts (show (-2 ^ 63 : Int) ≤ -1000 by decide)
    (show (1000 : Int) < 2 ^ 63 by decide)
  refine hoom.reader hcode (fun val => ({ draft with msg := { draft.msg with
    oomScoreAdj := some (Int32.ofInt val) } } : Draft)) ?_ ?_
  · intro text value _
    simp only [Kind.Accepts]
    split_ifs with hrange
    · have hnot : ¬(-1000 ≤ intOf text ∧ intOf text ≤ 1000) := by omega
      simp [hnot]
    · have haccepts : -1000 ≤ intOf text ∧ intOf text ≤ 1000 := by omega
      simp only [haccepts, and_self, true_and, pure_eq_ok,
        Except.ok.injEq, eq_comm]
  · intro val e hput
    split_ifs at hput <;> cases hput
    intro hack
    contradiction

theorem applyField_dispatch (key : Bytes) (draft : Draft) :
    Dispatch key draft (applyTable key) := by
  unfold applyTable
  split_ifs with hpid hcpu hmem hpids hrlim hoom
  · refine .literal ?_
    simp only [applyField, storeMember, storeLiteral, if_pos hpid]
    refine pid_reader ?_ draft
    decide
  · refine .object ?_
    simp only [applyField, storeMember, storeObject, if_neg hpid,
      if_pos hcpu]
    exact cpuField_spec.objectReader _ _ fun policy =>
      { draft with msg := { draft.msg with cpu := some policy } }
  · refine .object ?_
    simp only [applyField, storeMember, storeObject, if_neg hpid,
      if_neg hcpu, if_pos hmem]
    exact memField_spec.objectReader _ _ fun policy =>
      { draft with msg := { draft.msg with mem := some policy } }
  · refine .object ?_
    simp only [applyField, storeMember, storeObject, if_neg hpid,
      if_neg hcpu, if_neg hmem, if_pos hpids]
    exact pidsField_spec.objectReader _ _ fun policy =>
      { draft with msg := { draft.msg with pids := some policy } }
  · refine .object ?_
    simp only [applyField, storeMember, storeObject, if_neg hpid,
      if_neg hcpu, if_neg hmem, if_neg hpids, if_pos hrlim]
    exact rlimField_spec.objectReader _ _ fun policy =>
      { draft with msg := { draft.msg with rlim := some policy } }
  · refine .literal ?_
    simp only [applyField, storeMember, storeLiteral, if_neg hpid,
      if_neg hcpu, if_neg hmem, if_neg hpids, if_neg hrlim, if_pos hoom]
    refine oom_reader ?_ draft
    decide
  · have hunknown (s : Bytes) : applyField key s draft =
        .error (.nack .nackUnknownField (bytes "unknown field: " ++ key)) := by
      simp only [applyField, if_neg hpid, if_neg hcpu, if_neg hmem,
        if_neg hpids, if_neg hrlim, if_neg hoom]
      rfl
    exact .unknown hunknown

theorem applyField_spec :
    FieldSpec applyField ApplyItem ApplyOverruns storeMember where
  accepts := by
    intro key s draft c
    have hdispatch := applyField_dispatch key draft
    constructor
    · intro hfield
      generalize htable : applyTable key = value at hdispatch
      cases hdispatch with
      | unknown hnack =>
          rw [hnack] at hfield
          contradiction
      | literal hreader =>
          obtain ⟨text, htoken, haccepts, hvalue⟩ := hreader.accepts.mp hfield
          exact ⟨_, .literal htable htoken haccepts, hvalue⟩
      | object hreader =>
          obtain ⟨body, fields, hobject, hpasses, hvalue⟩ :=
            hreader.accepts.mp hfield
          exact ⟨_, .object htable hobject hpasses, hvalue⟩
    · intro hitem
      obtain ⟨m, hitem, hvalue⟩ := hitem
      cases hitem with
      | literal htable htoken haccepts =>
          rw [htable] at hdispatch
          cases hdispatch with
          | literal hreader =>
              exact hreader.accepts.mpr ⟨_, htoken, haccepts, hvalue⟩
      | object htable hobject hpasses =>
          rw [htable] at hdispatch
          cases hdispatch with
          | object hreader =>
              exact hreader.accepts.mpr ⟨_, _, hobject, hpasses, hvalue⟩
  faults := by
    intro key s draft
    have hdispatch := applyField_dispatch key draft
    constructor
    · intro hfault
      generalize htable : applyTable key = value at hdispatch
      cases hdispatch with
      | unknown hnack =>
          obtain ⟨f, hfault⟩ := hfault
          rw [hnack] at hfault
          simp at hfault
      | literal hreader =>
          obtain ⟨text, rest, htoken, hoverruns⟩ := hreader.faults.mp hfault
          exact .literal htable htoken hoverruns
      | object hreader =>
          rcases hreader.faults.mp hfault with
            hlone | ⟨body, rest, hobject, hoverrun⟩
          · exact .brace htable hlone
          · exact .object htable hobject hoverrun
    · intro hoverruns
      cases hoverruns with
      | literal htable htoken hoverruns =>
          rw [htable] at hdispatch
          cases hdispatch with
          | literal hreader =>
              exact hreader.faults.mpr ⟨_, _, htoken, hoverruns⟩
      | brace htable hlone =>
          rw [htable] at hdispatch
          cases hdispatch with
          | object hreader => exact hreader.faults.mpr (.inl hlone)
      | object htable hobject hoverrun =>
          rw [htable] at hdispatch
          cases hdispatch with
          | object hreader =>
              exact hreader.faults.mpr (.inr ⟨_, _, hobject, hoverrun⟩)
  nacks := by
    intro key s draft code detail hnack
    have hdispatch := applyField_dispatch key draft
    generalize applyTable key = value at hdispatch
    cases hdispatch with
    | unknown hunknown =>
        rw [hunknown] at hnack
        cases hnack
        decide
    | literal hreader => exact hreader.nacks hnack
    | object hreader => exact hreader.nacks hnack
  shrinks := by
    intro key s m rest hitem
    cases hitem with
    | literal _ htoken _ => exact htoken.length_le
    | object _ hobject _ => exact hobject.length_le

end HeidiKernel.Gov
