import HeidiKernel.GovRule.Verdict

namespace HeidiKernel.Gov

open HeidiKernel.Data

/-! The payloads that are answered with `NACK_PARSE_ERROR`. -/

def ParseError {α : Type} (run : Except Exit α) : Prop :=
  ∃ detail, run = .error (.nack .nackParseError detail)

/-- After some members comes something that is no member. -/
inductive Breaks (Malformed : Bytes → Bytes → Prop) (s : Bytes) : Prop
  | key : s ≠ [] → (∀ key rest, ¬Quoted s key rest) → Breaks Malformed s
  | colon {key afterKey : Bytes} :
      Quoted s key afterKey → (∀ rest, ¬Colon afterKey rest) →
      Breaks Malformed s
  | value {key afterKey afterColon : Bytes} :
      Quoted s key afterKey → Colon afterKey afterColon →
      Malformed key afterColon → Breaks Malformed s

/-- Without a number these two count as out of range. -/
def Ranged (key : Bytes) : Prop := key = bytes "nice" ∨ key = bytes "max_pct"

inductive MalformedField (table : Table) (key s : Bytes) : Prop
  | intro {kind : Kind} :
      table key = some kind → ¬Ranged key →
      (∀ text rest, ¬kind.Token s text rest) → MalformedField table key s

inductive MalformedMember (key s : Bytes) : Prop
  | literal {kind : Kind} :
      applyTable key = some (.literal kind) →
      (∀ text rest, ¬kind.Token s text rest) → MalformedMember key s
  | brace {table : Table} :
      applyTable key = some (.object table) →
      (∀ inside, s ≠ lbrace :: inside) → MalformedMember key s
  | object {table : Table} {body rest left : Bytes} {fields : List Literal} :
      applyTable key = some (.object table) → ObjectAt s body rest →
      Passes (FieldItem table) body fields left →
      Breaks (MalformedField table) left → MalformedMember key s

/-! A value. -/

theorem parseError_bind_iff {α β : Type} {x : Except Exit α}
    {f : α → Except Exit β} :
    ParseError (x >>= f) ↔
      ParseError x ∨ ∃ a, x = .ok a ∧ ParseError (f a) := by
  unfold ParseError
  cases x <;> simp

theorem not_parseError_pure {α : Type} (a : α) :
    ¬ParseError (pure a : Except Exit α) := by
  simp [ParseError]

theorem parseError_nack_iff {α : Type} {code : AckCode} {detail : Bytes} :
    ParseError (.error (.nack code detail) : Except Exit α) ↔
      code = .nackParseError := by
  simp [ParseError]

theorem Scans.eq_none_iff {α : Type}
    {scan : Bytes → Except Fault (Option α × Bytes)}
    {token : Bytes → Bytes → Bytes → Prop}
    {convert : Bytes → Except Fault (Option α)}
    (h : Scans scan token convert)
    (hconvert : ∀ text, convert text ≠ .ok none) {s : Bytes} :
    (∃ left, scan s = .ok (none, left)) ↔
      ∀ text rest, ¬token s text rest := by
  constructor
  · rintro ⟨left, hscan⟩ text rest htoken
    rw [h.reads htoken] at hscan
    cases hvalue : convert text with
    | error f =>
        rw [hvalue] at hscan
        contradiction
    | ok value =>
        rw [hvalue] at hscan
        obtain ⟨rfl, _⟩ := Prod.mk.inj (Except.ok.inj hscan)
        exact hconvert text hvalue
  · exact h.rejects

section ReadField

variable {α σ : Type} {parse : Bytes → Except Fault (Option α × Bytes)}
  {code : AckCode} {detail s : Bytes} {put : α → Except Exit σ}

theorem readField_parseError_iff (hput : ∀ val, ¬ParseError (put val)) :
    ParseError (readField parse code detail put s) ↔
      code = .nackParseError ∧ ∃ left, parse s = .ok (none, left) := by
  unfold readField
  cases parse s with
  | error f => simp [ParseError]
  | ok found =>
      obtain ⟨out, left⟩ := found
      rw [liftM_ok, ok_bind]
      cases out with
      | none => simp [parseError_nack_iff]
      | some val =>
          have hnot : ¬ParseError (put val >>= fun value =>
              pure (⟨left, value⟩ : Cursor σ)) := by
            rw [parseError_bind_iff, not_or]
            refine ⟨hput val, ?_⟩
            rintro ⟨value, _, hvalue⟩
            exact not_parseError_pure _ hvalue
          exact iff_of_false hnot (by simp)

theorem readField_of_scans {token : Bytes → Bytes → Bytes → Prop}
    {convert : Bytes → Except Fault (Option α)}
    (h : Scans parse token convert)
    (hconvert : ∀ text, convert text ≠ .ok none)
    (hput : ∀ val, ¬ParseError (put val)) :
    ParseError (readField parse .nackParseError detail put s) ↔
      ∀ text rest, ¬token s text rest := by
  rw [readField_parseError_iff hput, h.eq_none_iff hconvert]
  exact and_iff_right rfl

theorem readField_ranged (hcode : code ≠ .nackParseError)
    (hput : ∀ val, ¬ParseError (put val)) :
    ¬ParseError (readField parse code detail put s) := by
  rw [readField_parseError_iff hput]
  exact fun h => hcode h.1

end ReadField

theorem map_some_ne {α : Type} (x : Except Fault α) :
    some <$> x ≠ .ok none := by
  cases x <;> simp

theorem stringField_parseError_iff {σ : Type} {detail s : Bytes}
    (set : Bytes → σ) :
    ParseError (readField parseStringValue .nackParseError detail
        (fun val => pure (set val)) s) ↔
      ∀ text rest, ¬Quoted s text rest :=
  readField_of_scans parseQuoted_scans (by simp) fun _ =>
    not_parseError_pure _

theorem uintField_parseError_iff {σ : Type} {detail s : Bytes}
    {put : Nat → Except Exit σ} (hput : ∀ val, ¬ParseError (put val)) :
    ParseError (readField parseUintValue .nackParseError detail put s) ↔
      ∀ text rest, ¬Unsigned s text rest :=
  readField_of_scans parseUintValue_scans (fun _ => map_some_ne _) hput

theorem intField_parseError_iff {σ : Type} {detail s : Bytes}
    {put : Int → Except Exit σ} (hput : ∀ val, ¬ParseError (put val)) :
    ParseError (readField parseIntValue .nackParseError detail put s) ↔
      ∀ text rest, ¬Signed s text rest :=
  readField_of_scans parseIntValue_scans (fun _ => map_some_ne _) hput

/-! The fields of the sub-objects. -/

/-- Under every key a field is turned down as malformed when it is. -/
def ReportsMalformed {σ : Type}
    (field : Bytes → Bytes → σ → Except Exit (Cursor σ))
    (Malformed : Bytes → Bytes → Prop) : Prop :=
  ∀ key s value, ParseError (field key s value) ↔ Malformed key s

theorem malformedField_iff {table : Table} {key s : Bytes} {kind : Kind}
    (hkind : table key = some kind) (hkey : ¬Ranged key) :
    MalformedField table key s ↔ ∀ text rest, ¬kind.Token s text rest := by
  constructor
  · rintro ⟨hkind', _, htoken⟩
    obtain rfl := Option.some.inj (hkind.symm.trans hkind')
    exact htoken
  · exact .intro hkind hkey

theorem not_malformedField {table : Table} {key s : Bytes}
    (h : table key = none ∨ Ranged key) : ¬MalformedField table key s := by
  rintro ⟨hkind, hkey, _⟩
  rcases h with hnone | hranged
  · rw [hnone] at hkind
    contradiction
  · exact hkey hranged

theorem cpuField_malformed :
    ReportsMalformed cpuField (MalformedField cpuTable) := by
  intro key s policy
  unfold cpuField
  split_ifs with haffinity hnice hmaxPct
  · have hkind : cpuTable key = some .string := by
      simp [cpuTable, haffinity]
    rw [stringField_parseError_iff,
      malformedField_iff hkind (by simp [Ranged, haffinity])]
    rfl
  · exact iff_of_false
      (readField_ranged (by decide) fun _ => not_parseError_pure _)
      (not_malformedField (.inr (.inl hnice)))
  · exact iff_of_false
      (readField_ranged (by decide) fun _ => not_parseError_pure _)
      (not_malformedField (.inr (.inr hmaxPct)))
  · have hkind : cpuTable key = none := by
      simp [cpuTable, haffinity, hnice, hmaxPct]
    exact iff_of_false (by simp [ParseError])
      (not_malformedField (.inl hkind))

theorem memField_malformed :
    ReportsMalformed memField (MalformedField memTable) := by
  intro key s policy
  unfold memField
  split_ifs with hkey
  · have hkind : memTable key = some (.uint (2 ^ 64 - 1)) := by
      simp [memTable, hkey]
    rw [uintField_parseError_iff fun _ => not_parseError_pure _,
      malformedField_iff hkind (by simp [Ranged, hkey])]
    rfl
  · have hkind : memTable key = none := by simp [memTable, hkey]
    exact iff_of_false (by simp [ParseError])
      (not_malformedField (.inl hkind))

theorem pidsField_malformed :
    ReportsMalformed pidsField (MalformedField pidsTable) := by
  intro key s policy
  unfold pidsField
  split_ifs with hkey
  · have hkind : pidsTable key = some (.uint (2 ^ 32 - 1)) := by
      simp [pidsTable, hkey]
    rw [uintField_parseError_iff ?_,
      malformedField_iff hkind (by simp [Ranged, hkey])]
    · rfl
    · intro val
      split_ifs <;> simp [ParseError]
  · have hkind : pidsTable key = none := by simp [pidsTable, hkey]
    exact iff_of_false (by simp [ParseError])
      (not_malformedField (.inl hkind))

theorem rlimField_malformed :
    ReportsMalformed rlimField (MalformedField rlimTable) := by
  intro key s policy
  have hread {detail : Bytes} {set : Nat → RlimPolicy}
      (hkind : rlimTable key = some (.uint (2 ^ 64 - 1)))
      (hkey : ¬Ranged key) :
      ParseError (readField parseUintValue .nackParseError detail
          (fun val => pure (set val)) s) ↔ MalformedField rlimTable key s := by
    rw [uintField_parseError_iff fun _ => not_parseError_pure _,
      malformedField_iff hkind hkey]
    rfl
  unfold rlimField
  split_ifs with hsoft hhard hcore hcore'
  · exact hread (by simp [rlimTable, hsoft]) (by simp [Ranged, hsoft])
  · exact hread (by simp [rlimTable, hhard]) (by simp [Ranged, hhard])
  · exact hread (by simp [rlimTable, hcore]) (by simp [Ranged, hcore])
  · exact hread (by simp [rlimTable, hcore']) (by simp [Ranged, hcore'])
  · have hkind : rlimTable key = none := by
      simp [rlimTable, hsoft, hhard, hcore, hcore']
    exact iff_of_false (by simp [ParseError])
      (not_malformedField (.inl hkind))

/-! The members of an object. -/

section Members

variable {M σ : Type} {keyDetail colonDetail : Bytes}
  {field : Bytes → Bytes → σ → Except Exit (Cursor σ)}
  {Malformed : Bytes → Bytes → Prop} (hfield : ReportsMalformed field Malformed)

include hfield

theorem memberStep_parseError_iff {c : Cursor σ} :
    ParseError (memberStep keyDetail colonDetail field c) ↔
      Breaks Malformed c.view := by
  constructor
  · intro hstep
    rcases member_cases c.view with
      hnil | ⟨hne, hkey⟩ | ⟨key, afterKey, hkey, hcolon⟩ |
        ⟨key, afterKey, afterColon, hkey, hcolon⟩
    · rw [FieldSpec.memberStep_ends_iff.mpr hnil] at hstep
      exact absurd hstep (not_parseError_pure _)
    · exact .key hne hkey
    · exact .colon hkey hcolon
    · rw [FieldSpec.memberStep_of_key hkey hcolon, parseError_bind_iff]
        at hstep
      rcases hstep with hvalue | ⟨next, _, hnext⟩
      · exact .value hkey hcolon ((hfield _ _ _).mp hvalue)
      · exact absurd hnext (not_parseError_pure _)
  · intro hbreaks
    cases hbreaks with
    | key hne hkey =>
        rw [FieldSpec.memberStep_of_not_key hne hkey, parseError_nack_iff]
    | colon hkey hcolon =>
        rw [FieldSpec.memberStep_of_not_colon hkey hcolon,
          parseError_nack_iff]
    | value hkey hcolon hvalue =>
        rw [FieldSpec.memberStep_of_key hkey hcolon, parseError_bind_iff]
        exact .inl ((hfield _ _ _).mpr hvalue)

variable {Item : Bytes → Bytes → M → Bytes → Prop}
  {Overruns : Bytes → Bytes → Prop} {apply : σ → M → σ}
  (h : FieldSpec field Item Overruns apply)

include h

theorem members_parseError_iff {c : Cursor σ} {value : σ} :
    (∃ detail, members keyDetail colonDetail field c =
        .error (.nack .nackParseError detail, value)) ↔
      ∃ ms left, Passes Item c.view ms left ∧ Breaks Malformed left ∧
        value = ms.foldl apply c.value := by
  unfold members
  simp only [loop_eq_error_iff h.memberStep_size (Nat.lt_succ_self _),
    h.reaches_iff, mapError_eq_error]
  constructor
  · rintro ⟨detail, t, ⟨ms, hpasses, hvalue⟩, e, hstep, heq⟩
    obtain ⟨rfl, rfl⟩ := Prod.mk.inj heq
    exact ⟨ms, t.view, hpasses,
      (memberStep_parseError_iff hfield).mp ⟨detail, hstep⟩, hvalue⟩
  · rintro ⟨ms, left, hpasses, hbreaks, rfl⟩
    obtain ⟨detail, hstep⟩ := (memberStep_parseError_iff hfield
      (c := ⟨left, ms.foldl apply c.value⟩)).mpr hbreaks
    exact ⟨detail, ⟨left, ms.foldl apply c.value⟩, ⟨ms, hpasses, rfl⟩, _,
      hstep, rfl⟩

theorem parseObject_parseError_iff {τ : Type} {name s : Bytes} {init : σ}
    {store : σ → τ} :
    ParseError (parseObject name field init store s) ↔
      (∀ inside, s ≠ lbrace :: inside) ∨
        ∃ body rest fields left, ObjectAt s body rest ∧
          Passes Item body fields left ∧ Breaks Malformed left := by
  have hmembers (body : Bytes) :
      ParseError ((members (bytes "failed to parse " ++ name ++
            bytes " sub-key")
          (bytes "missing colon in " ++ name ++ bytes " object") field
          ⟨body, init⟩).mapError Prod.fst) ↔
        ∃ fields left, Passes Item body fields left ∧
          Breaks Malformed left := by
    simp only [ParseError, mapError_eq_error]
    constructor
    · rintro ⟨detail, ⟨e, value⟩, hrun, rfl⟩
      obtain ⟨fields, left, hpasses, hbreaks, _⟩ :=
        (members_parseError_iff hfield h).mp ⟨detail, hrun⟩
      exact ⟨fields, left, hpasses, hbreaks⟩
    · rintro ⟨fields, left, hpasses, hbreaks⟩
      obtain ⟨detail, hrun⟩ := (members_parseError_iff hfield h
        (c := ⟨body, init⟩)).mpr ⟨fields, left, hpasses, hbreaks, rfl⟩
      exact ⟨detail, _, hrun, rfl⟩
  rcases object_cases s with hnot | hlone | ⟨body, rest, hobject⟩
  · rw [parseObject_of_not hnot, parseError_nack_iff]
    exact iff_of_true rfl (.inl hnot)
  · rw [parseObject_of_loneBrace hlone]
    refine iff_of_false (by simp [ParseError]) ?_
    rintro (hnot | ⟨body, rest, _, _, hobject, _⟩)
    · obtain ⟨inside, _, rfl⟩ := hlone
      exact hnot inside rfl
    · have hslice := sliceObject_of_objectAt hobject
      rw [sliceObject_of_loneBrace hlone] at hslice
      cases hslice
  · rw [parseObject_of_objectAt hobject, parseError_bind_iff, hmembers]
    constructor
    · rintro (⟨fields, left, hpasses, hbreaks⟩ | ⟨policy, _, hpolicy⟩)
      · exact .inr ⟨body, rest, fields, left, hobject, hpasses, hbreaks⟩
      · exact absurd hpolicy (not_parseError_pure _)
    · rintro (hnot | ⟨body', rest', fields, left, hobject', hpasses,
        hbreaks⟩)
      · obtain ⟨inside, _, _, rfl, _⟩ := hobject.slice
        exact absurd rfl (hnot inside)
      · have hslice := (sliceObject_of_objectAt hobject).symm.trans
          (sliceObject_of_objectAt hobject')
        obtain ⟨rfl, rfl⟩ := Prod.mk.inj (Except.ok.inj hslice)
        exact .inl ⟨fields, left, hpasses, hbreaks⟩

end Members

/-! The members of the payload. -/

theorem malformedMember_literal_iff {key s : Bytes} {kind : Kind}
    (hkind : applyTable key = some (.literal kind)) :
    MalformedMember key s ↔ ∀ text rest, ¬kind.Token s text rest := by
  constructor
  · intro h
    cases h with
    | literal hkind' htoken =>
        obtain rfl := Value.literal.inj
          (Option.some.inj (hkind.symm.trans hkind'))
        exact htoken
    | brace htable _ => simp [hkind] at htable
    | object htable _ _ _ => simp [hkind] at htable
  · exact .literal hkind

theorem malformedMember_object_iff {key s : Bytes} {table : Table}
    (htable : applyTable key = some (.object table)) :
    MalformedMember key s ↔ (∀ inside, s ≠ lbrace :: inside) ∨
      ∃ body rest fields left, ObjectAt s body rest ∧
        Passes (FieldItem table) body fields left ∧
        Breaks (MalformedField table) left := by
  constructor
  · intro h
    cases h with
    | literal hkind _ => simp [htable] at hkind
    | brace _ hnot => exact .inl hnot
    | object htable' hobject hpasses hbreaks =>
        obtain rfl := Value.object.inj
          (Option.some.inj (htable.symm.trans htable'))
        exact .inr ⟨_, _, _, _, hobject, hpasses, hbreaks⟩
  · rintro (hnot | ⟨body, rest, fields, left, hobject, hpasses, hbreaks⟩)
    · exact .brace htable hnot
    · exact .object htable hobject hpasses hbreaks

theorem applyField_malformed :
    ReportsMalformed applyField MalformedMember := by
  intro key s draft
  have hput (p : Prop) [Decidable p] (code : AckCode) (detail : Bytes)
      (draft : Draft) (hcode : code ≠ .nackParseError) :
      ¬ParseError (if p then throw (.nack code detail) else
        (pure draft : Except Exit Draft)) := by
    split_ifs
    · simpa [ParseError] using hcode
    · exact not_parseError_pure _
  have hobject {σ : Type} {table : Table} {overruns : Bytes → Bytes → Prop}
      {field : Bytes → Bytes → σ → Except Exit (Cursor σ)}
      {apply : σ → Literal → σ} {name : Bytes} {init : σ}
      {store : σ → Draft} (htable : applyTable key = some (.object table))
      (h : FieldSpec field (FieldItem table) overruns apply)
      (hfield : ReportsMalformed field (MalformedField table)) :
      ParseError (parseObject name field init store s) ↔
        MalformedMember key s := by
    rw [parseObject_parseError_iff hfield h,
      malformedMember_object_iff htable]
  simp only [applyField]
  split_ifs with hpid hcpu hmem hpids hrlim hoom
  · have hkind : applyTable key = some (.literal (.int 1 (2 ^ 63 - 1))) := by
      simp [applyTable, hpid]
    rw [intField_parseError_iff fun val => hput _ _ _ _ (by decide),
      malformedMember_literal_iff hkind]
    rfl
  · exact hobject (by simp [applyTable, hcpu]) cpuField_spec
      cpuField_malformed
  · exact hobject (by simp [applyTable, hmem]) memField_spec
      memField_malformed
  · exact hobject (by simp [applyTable, hpids]) pidsField_spec
      pidsField_malformed
  · exact hobject (by simp [applyTable, hrlim]) rlimField_spec
      rlimField_malformed
  · have hkind : applyTable key = some (.literal (.int (-1000) 1000)) := by
      simp [applyTable, hoom]
    rw [intField_parseError_iff fun val => hput _ _ _ _ (by decide),
      malformedMember_literal_iff hkind]
    rfl
  · have hnone : applyTable key = none := by
      simp [applyTable, hpid, hcpu, hmem, hpids, hrlim, hoom]
    refine iff_of_false (by simp [ParseError]) ?_
    intro h
    cases h with
    | literal hkind _ => simp [hnone] at hkind
    | brace htable _ => simp [hnone] at htable
    | object htable _ _ _ => simp [hnone] at htable

theorem applyMembers_parseError_iff {body : Bytes} {draft : Draft} :
    (∃ detail, applyMembers body =
        .error (.nack .nackParseError detail, draft)) ↔
      ∃ doc left, Passes ApplyItem body doc left ∧
        Breaks MalformedMember left ∧ draft = doc.foldl storeMember {} :=
  members_parseError_iff applyField_malformed applyField_spec

end HeidiKernel.Gov
