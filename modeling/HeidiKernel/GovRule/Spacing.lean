import HeidiKernel.GovRule.Slices

namespace HeidiKernel.Gov

open HeidiKernel.Data

/-! A scanner finds the same in two texts with the same tokens. -/

structure SameFound {α : Type} (a b : Option α × Bytes) : Prop where
  value : a.1 = b.1
  rest : a.1 ≠ none → tokens a.2 = tokens b.2

theorem Scans.alike {α : Type}
    {scan : Bytes → Except Fault (Option α × Bytes)}
    {token : Bytes → Bytes → Bytes → Prop}
    {convert : Bytes → Except Fault (Option α)}
    (h : Scans scan token convert)
    (htoken : ∀ {s s' text rest}, token s text rest → tokens s = tokens s' →
      ∃ rest', token s' text rest' ∧ tokens rest = tokens rest')
    {s s' : Bytes} (heq : tokens s = tokens s') :
    Alike SameFound (scan s) (scan s') := by
  by_cases hfound : ∃ text rest, token s text rest
  · obtain ⟨text, rest, hread⟩ := hfound
    obtain ⟨rest', hread', hrest⟩ := htoken hread heq
    rw [h.reads hread, h.reads hread']
    cases convert text with
    | ok value => exact .ok ⟨rfl, fun _ => hrest⟩
    | error f => exact .error f
  · obtain ⟨left, hleft⟩ := h.rejects fun text rest hread =>
      hfound ⟨text, rest, hread⟩
    obtain ⟨left', hleft'⟩ : ∃ left', scan s' = .ok (none, left') := by
      apply h.rejects
      intro text rest hread
      obtain ⟨rest', hread', _⟩ := htoken hread heq.symm
      exact hfound ⟨text, rest', hread'⟩
    rw [hleft, hleft']
    exact .ok ⟨rfl, fun hne => absurd rfl hne⟩

theorem liftM_alike {α β : Type} {R : α → β → Prop} {x : Except Fault α}
    {y : Except Fault β} (h : Alike R x y) :
    Alike R (liftM x : Except Exit α) (liftM y : Except Exit β) :=
  h.mapError Exit.fault

/-! A value. -/

structure SameCursor {σ : Type} (c c' : Cursor σ) : Prop where
  tokens : tokens c.view = tokens c'.view
  value : c.value = c'.value

theorem readField_alike {α σ : Type}
    {parse : Bytes → Except Fault (Option α × Bytes)} {s s' : Bytes}
    (h : Alike SameFound (parse s) (parse s')) (code : AckCode)
    (detail : Bytes) (put : α → Except Exit σ) :
    Alike SameCursor (readField parse code detail put s)
      (readField parse code detail put s') := by
  refine (liftM_alike h).bind ?_
  rintro ⟨out, rest⟩ ⟨out', rest'⟩ ⟨hvalue, hrest⟩
  obtain rfl : out = out' := hvalue
  cases out with
  | none => exact .error _
  | some val =>
      refine (Alike.refl (R := Eq) (fun _ => rfl) (put val)).bind ?_
      rintro value _ rfl
      exact .ok ⟨hrest (by simp), rfl⟩

/-- Under every key the same value is read. -/
def Spaced {σ : Type} (field : Bytes → Bytes → σ → Except Exit (Cursor σ)) :
    Prop :=
  ∀ key {s s'} value, tokens s = tokens s' →
    Alike SameCursor (field key s value) (field key s' value)

theorem parseQuoted_alike {s s' : Bytes} (h : tokens s = tokens s') :
    Alike SameFound (parseQuoted s) (parseQuoted s') :=
  parseQuoted_scans.alike Quoted.alike h

theorem parseIntValue_alike {s s' : Bytes} (h : tokens s = tokens s') :
    Alike SameFound (parseIntValue s) (parseIntValue s') :=
  parseIntValue_scans.alike Signed.alike h

theorem parseUintValue_alike {s s' : Bytes} (h : tokens s = tokens s') :
    Alike SameFound (parseUintValue s) (parseUintValue s') :=
  parseUintValue_scans.alike Unsigned.alike h

theorem cpuField_spaced : Spaced cpuField := by
  intro key s s' policy h
  unfold cpuField
  split_ifs
  · exact readField_alike (parseQuoted_alike h) _ _ _
  · exact readField_alike
      ((parseIntValue_scans.narrow _ _).alike Signed.alike h) _ _ _
  · exact readField_alike
      ((parseUintValue_scans.narrow _ _).alike Unsigned.alike h) _ _ _
  · exact .error _

theorem memField_spaced : Spaced memField := by
  intro key s s' policy h
  unfold memField
  split_ifs
  · exact readField_alike (parseUintValue_alike h) _ _ _
  · exact .error _

theorem pidsField_spaced : Spaced pidsField := by
  intro key s s' policy h
  unfold pidsField
  split_ifs
  · exact readField_alike (parseUintValue_alike h) _ _ _
  · exact .error _

theorem rlimField_spaced : Spaced rlimField := by
  intro key s s' policy h
  unfold rlimField
  split_ifs
  · exact readField_alike (parseUintValue_alike h) _ _ _
  · exact readField_alike (parseUintValue_alike h) _ _ _
  · exact readField_alike (parseUintValue_alike h) _ _ _
  · exact readField_alike (parseUintValue_alike h) _ _ _
  · exact .error _

/-! The members of an object. -/

structure SameLevel {σ : Type} (c c' : Cursor σ) : Prop where
  view : SameView c.view c'.view
  value : c.value = c'.value

section Members

variable {M σ : Type} {keyDetail colonDetail : Bytes}
  {field : Bytes → Bytes → σ → Except Exit (Cursor σ)}

/-- Two rounds differ only where their values do. -/
theorem memberStep_alike {c c' : Cursor σ} (h : SameLevel c c')
    (hfield : ∀ {key afterKey afterKey' afterColon afterColon'},
      Quoted c.view key afterKey → Colon afterKey afterColon →
      Quoted c'.view key afterKey' → Colon afterKey' afterColon' →
      tokens afterColon = tokens afterColon' →
        Alike SameCursor (field key afterColon c.value)
          (field key afterColon' c.value)) :
    Alike (Option.Rel SameLevel) (memberStep keyDetail colonDetail field c)
      (memberStep keyDetail colonDetail field c') := by
  obtain ⟨⟨htokens, hempty⟩, hvalue⟩ := h
  rcases member_cases c.view with
    hnil | ⟨hne, hkey⟩ | ⟨key, afterKey, hkey, hcolon⟩ |
      ⟨key, afterKey, afterColon, hkey, hcolon⟩
  · rw [FieldSpec.memberStep_ends_iff.mpr hnil,
      FieldSpec.memberStep_ends_iff.mpr (hempty.mp hnil)]
    exact .ok .none
  · rw [FieldSpec.memberStep_of_not_key hne hkey,
      FieldSpec.memberStep_of_not_key (mt hempty.mpr hne)]
    · exact .error _
    · intro key rest hrest
      obtain ⟨rest', hrest', _⟩ := hrest.alike htokens.symm
      exact hkey key rest' hrest'
  · obtain ⟨afterKey', hkey', hafter⟩ := hkey.alike htokens
    rw [FieldSpec.memberStep_of_not_colon hkey hcolon,
      FieldSpec.memberStep_of_not_colon hkey']
    · exact .error _
    · intro rest hrest
      obtain ⟨rest', hrest', _⟩ := hrest.alike hafter.symm
      exact hcolon rest' hrest'
  · obtain ⟨afterKey', hkey', hafter⟩ := hkey.alike htokens
    obtain ⟨afterColon', hcolon', hrest⟩ := hcolon.alike hafter
    rw [FieldSpec.memberStep_of_key hkey hcolon,
      FieldSpec.memberStep_of_key hkey' hcolon', ← hvalue]
    refine (hfield hkey hcolon hkey' hcolon' hrest).bind ?_
    intro next next' hnext
    exact .ok (.some ⟨sameView_memberEnd hnext.tokens, hnext.value⟩)

variable {Item : Bytes → Bytes → M → Bytes → Prop}
  {Overruns : Bytes → Bytes → Prop} {apply : σ → M → σ}
  (h : FieldSpec field Item Overruns apply)

include h

theorem members_alike {R : Cursor σ → Cursor σ → Prop}
    (hvalue : ∀ c c', R c c' → c.value = c'.value)
    (hstep : ∀ c c', R c c' →
      Alike (Option.Rel R) (memberStep keyDetail colonDetail field c)
        (memberStep keyDetail colonDetail field c'))
    {c c' : Cursor σ} (hR : R c c') :
    Alike R (members keyDetail colonDetail field c)
      (members keyDetail colonDetail field c') := by
  refine Alike.loop h.memberStep_size h.memberStep_size ?_ hR
    (Nat.lt_succ_self _) (Nat.lt_succ_self _)
  intro c c' hR
  rw [hvalue c c' hR]
  exact (hstep c c' hR).mapError _

end Members

/-! A sub-object. -/

section ParseObject

variable {σ τ : Type} {table : Table} {overruns : Bytes → Bytes → Prop}
  {field : Bytes → Bytes → σ → Except Exit (Cursor σ)}
  {apply : σ → Literal → σ}
  (h : FieldSpec field (FieldItem table) overruns apply)
  (hfield : Spaced field)

include h hfield

theorem objectMembers_alike {keyDetail colonDetail s s' : Bytes} {init : σ}
    (hview : SameView s s') :
    Alike (fun c c' => c.value = c'.value ∧ ¬Unclosed s)
      (members keyDetail colonDetail field ⟨s, init⟩)
      (members keyDetail colonDetail field ⟨s', init⟩) := by
  have hsame : Alike SameLevel
      (members keyDetail colonDetail field ⟨s, init⟩)
      (members keyDetail colonDetail field ⟨s', init⟩) := by
    refine members_alike h (fun c c' hlevel => hlevel.value) ?_ ⟨hview, rfl⟩
    intro c c' hlevel
    exact memberStep_alike hlevel fun _ _ _ _ hafter =>
      hfield _ _ hafter
  refine hsame.results.mono ?_
  rintro c c' ⟨hlevel, hrun, _⟩
  refine ⟨hlevel.value, ?_⟩
  intro hopen
  obtain ⟨fields, hpasses, _⟩ := h.members_eq_ok_iff.mp hrun
  obtain ⟨text, hmem⟩ := hopen.left hpasses
  rw [tokens_eq_nil_iff.mpr blank_nil] at hmem
  exact List.not_mem_nil hmem

theorem parseObject_alike {name inside inside' : Bytes} {init : σ}
    {store : σ → τ} (hinside : tokens inside = tokens inside') :
    Alike SameCursor (parseObject name field init store (lbrace :: inside))
      (parseObject name field init store (lbrace :: inside')) := by
  rw [parseObject_of_inside, parseObject_of_inside]
  refine (liftM_alike (sliceObject_alike hinside)).bind ?_
  rintro ⟨body, rest⟩ ⟨body', rest'⟩ ⟨hbody, hrest⟩
  refine ((objectMembers_alike h hfield hbody).mapError Prod.fst).bind ?_
  intro policy policy' hpolicy
  exact .ok ⟨hrest.resolve_right hpolicy.2, congrArg store hpolicy.1⟩

/-- Only the blanks before a brace can make a difference. -/
theorem parseObject_spaced {name s s' : Bytes} {init : σ} {store : σ → τ}
    (hs : tokens s = tokens s')
    (hopens : (∃ inside, s = lbrace :: inside) ↔
      ∃ inside, s' = lbrace :: inside) :
    Alike SameCursor (parseObject name field init store s)
      (parseObject name field init store s') := by
  by_cases hopen : ∃ inside, s = lbrace :: inside
  · obtain ⟨inside', rfl⟩ := hopens.mp hopen
    obtain ⟨inside, rfl⟩ := hopen
    have hview (inside : Bytes) : After lbrace (lbrace :: inside) inside :=
      ⟨[], blank_nil, rfl⟩
    obtain ⟨rest, hrest, hinside⟩ := (hview inside).alike (by decide) hs
    obtain ⟨_, rfl⟩ := hrest.unique (by decide) (by decide) (hview inside')
    exact parseObject_alike h hfield hinside
  · rw [parseObject_of_not fun inside heq => hopen ⟨inside, heq⟩,
      parseObject_of_not fun inside heq => hopen (hopens.mpr ⟨inside, heq⟩)]
    exact .error _

end ParseObject

/-! A member of the payload. -/

theorem applyField_spaced {key s s' : Bytes} (draft : Draft)
    (hs : tokens s = tokens s')
    (hopens : ∀ table, applyTable key = some (.object table) →
      ((∃ inside, s = lbrace :: inside) ↔ ∃ inside, s' = lbrace :: inside)) :
    Alike SameCursor (applyField key s draft) (applyField key s' draft) := by
  simp only [applyTable] at hopens
  simp only [applyField]
  split_ifs at hopens ⊢
  · exact readField_alike (parseIntValue_alike hs) _ _ _
  · exact parseObject_spaced cpuField_spec cpuField_spaced hs
      (hopens _ rfl)
  · exact parseObject_spaced memField_spec memField_spaced hs
      (hopens _ rfl)
  · exact parseObject_spaced pidsField_spec pidsField_spaced hs
      (hopens _ rfl)
  · exact parseObject_spaced rlimField_spec rlimField_spaced hs
      (hopens _ rfl)
  · exact readField_alike (parseIntValue_alike hs) _ _ _
  · exact .error _

end HeidiKernel.Gov
