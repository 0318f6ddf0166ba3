import HeidiKernel.GovRule.Print
import HeidiKernel.GovRule.Respaced
import HeidiKernel.GovRule.Tidy
import Mathlib.Tactic.Ring

namespace HeidiKernel.Gov

open HeidiKernel.Data

/-! The literals of a payload. A sub-object is cut out of the payload before it is
read; a literal is what the payload has at the place of the field, whether or not
the cut goes through it. -/

/-- What the view has behind a body that is cut out of it. -/
def behind (s body : Bytes) : Bytes := (trimStart s.tail).drop body.length

inductive SpelledField (table : Table) (back : Bytes) :
    Bytes → Bytes → Literal → Bytes → Prop
  | intro {key s text literal rest left : Bytes} {kind : Kind} :
      table key = some kind → kind.Token s text rest → kind.Accepts text →
      kind.Token (s ++ back) literal left →
      SpelledField table back key s ⟨key, literal⟩ rest

inductive SpelledMember : Bytes → Bytes → Member → Bytes → Prop
  | literal {key s text rest : Bytes} {kind : Kind} :
      applyTable key = some (.literal kind) → kind.Token s text rest →
      kind.Accepts text → SpelledMember key s (.literal ⟨key, text⟩) rest
  | object {key s body rest : Bytes} {table : Table}
      {fields : List Literal} :
      applyTable key = some (.object table) → ObjectAt s body rest →
      Passes (SpelledField table (behind s body)) body fields [] →
      SpelledMember key s (.object key fields) rest

/-- The payload is read, and these are the members with the literals it has. -/
def Spells (payload : Bytes) (doc : List Member) : Prop :=
  ∃ body, Body payload body ∧ Passes SpelledMember body doc []

/-- A number goes up to the end of the body and on behind it, and is not zero. -/
inductive CutField (table : Table) (back key s : Bytes) : Prop
  | intro {text literal left : Bytes} {kind : Kind} {digit : UInt8} :
      table key = some kind → kind ≠ .string → kind.Token s text [] →
      digit ∈ back.head? → isDigit digit = true →
      kind.Token (s ++ back) literal left → intOf literal ≠ 0 →
      CutField table back key s

/-- A sub-object that is cut out in the middle of a number. -/
inductive CutObject (key s : Bytes) : Prop
  | intro {table : Table} {body rest : Bytes} :
      applyTable key = some (.object table) → ObjectAt s body rest →
      Overrun (FieldItem table) (CutField table (behind s body)) body →
      CutObject key s

/-- The members of a payload lead to a sub-object that is cut out in the middle
of a number. -/
def CutPayload (payload : Bytes) : Prop :=
  ∃ body, Body payload body ∧ Overrun ApplyItem CutObject body

/-! The numbers. -/

theorem natOf_append (front back : Bytes) :
    natOf (front ++ back) = natOf front * 10 ^ back.length + natOf back := by
  induction back using List.reverseRecOn with
  | nil => simp [natOf]
  | append_singleton back c ih =>
      rw [← List.append_assoc, natOf_concat, natOf_concat, ih,
        List.length_append, List.length_singleton, pow_succ]
      ring

/-- More digits change a number, unless it is zero. -/
theorem natOf_append_eq_iff (front : Bytes) {back : Bytes} (h : back ≠ []) :
    natOf (front ++ back) = natOf front ↔ natOf (front ++ back) = 0 := by
  have hpow : 10 ≤ 10 ^ back.length :=
    Nat.le_self_pow (List.length_pos_iff.mpr h).ne' 10
  have hmul := Nat.mul_le_mul_left (natOf front) hpow
  rw [natOf_append]
  omega

/-- The number a literal stands for. -/
def Kind.number : Kind → Bytes → Int
  | string, _ => 0
  | int _ _, text => intOf text
  | uint _, text => natOf text

theorem Kind.Token.number_eq_iff {kind : Kind} (hkind : kind ≠ .string)
    {s text rest more : Bytes} (h : kind.Token s text rest) (hmore : Digits more) :
    kind.number (text ++ more) = kind.number text ↔ intOf (text ++ more) = 0 := by
  have hdigits {digits : Bytes} (h : Digits digits) : Digits (digits ++ more) :=
    { nonempty := by simp [h.nonempty]
      all := List.forall_mem_append.mpr ⟨h.all, hmore.all⟩ }
  cases kind with
  | string => exact absurd rfl hkind
  | int lo hi =>
      obtain ⟨_, sign, digits, _, hsign, hall, rfl, _, _⟩ := h
      have hlonger := natOf_append_eq_iff digits hmore.nonempty
      rcases hsign with rfl | rfl
      · simp only [Kind.number, List.cons_append, List.nil_append, intOf,
          beq_self_eq_true, if_true]
        omega
      · rw [List.nil_append, Kind.number, Kind.number, intOf_digits hall,
          intOf_digits (hdigits hall)]
        omega
  | uint hi =>
      obtain ⟨_, _, hall, _, _⟩ := h
      have hlonger := natOf_append_eq_iff text hmore.nonempty
      rw [Kind.number, Kind.number, intOf_digits (hdigits hall)]
      omega

/-! A field, and the literal the payload has there. -/

theorem digits_takeWhile {back : Bytes}
    (h : ∃ c ∈ back.head?, isDigit c = true) :
    Digits (back.takeWhile isDigit) where
  nonempty := by
    obtain ⟨c, hc, hdigit⟩ := h
    obtain ⟨tail, rfl⟩ := List.head?_eq_some_iff.mp hc
    rw [List.takeWhile_cons_of_pos hdigit]
    exact List.cons_ne_nil _ _
  all := fun _ hc => List.mem_takeWhile_imp hc

/-- In a longer view a token is the same, unless it is a number at the end that
goes on. -/
theorem Kind.Token.longer {kind : Kind} {s text rest : Bytes}
    (h : kind.Token s text rest) (back : Bytes) :
    (kind = .string ∨ (rest = [] → ∀ c ∈ back.head?, isDigit c = false)) ∧
        kind.Token (s ++ back) text (rest ++ back) ∨
      (kind ≠ .string ∧ rest = [] ∧ ∃ c ∈ back.head?, isDigit c = true) ∧
        kind.Token (s ++ back) (text ++ back.takeWhile isDigit)
          (back.dropWhile isDigit) := by
  by_cases hkind : kind = .string
  · subst hkind
    exact .inl ⟨.inl rfl, Quoted.append h back⟩
  · by_cases hdigit : rest = [] → ∀ c ∈ back.head?, isDigit c = false
    · exact .inl ⟨.inr hdigit, h.append hdigit⟩
    · push Not at hdigit
      obtain ⟨rfl, c, hc, hne⟩ := hdigit
      exact .inr ⟨⟨hkind, rfl, c, hc, by simpa using hne⟩,
        h.extend hkind back⟩

/-- An item ends at one place. -/
def EndsOnce {M : Type} (Item : Bytes → Bytes → M → Bytes → Prop) : Prop :=
  ∀ key s m m' rest rest', Item key s m rest → Item key s m' rest' →
    rest = rest'

theorem ApplyItem.endsOnce : EndsOnce ApplyItem :=
  fun _ _ _ _ _ _ h h' => h.rest_unique h'

section Fields

variable {table : Table} {back key s rest : Bytes}

theorem FieldItem.endsOnce : EndsOnce (FieldItem table) := by
  intro key s m m' rest rest' h h'
  obtain ⟨hkind, htoken, _⟩ := h
  obtain ⟨hkind', htoken', _⟩ := h'
  obtain rfl := Option.some.inj (hkind.symm.trans hkind')
  exact (htoken.unique htoken').2

/-- The literal is longer than what is left of it in the body. -/
structure Grows (table : Table) (back : Bytes) (cut : Prop) (m m' : Literal) :
    Prop where
  key : m'.key = m.key
  digit : ∃ c ∈ back.head?, isDigit c = true
  number : ∃ kind, table m.key = some kind ∧ kind ≠ .string ∧
    (cut ↔ kind.number m'.text ≠ kind.number m.text)

theorem cutField_iff {kind : Kind} {text literal left : Bytes}
    (hkind : table key = some kind) (htoken : kind.Token s text rest)
    (hliteral : kind.Token (s ++ back) literal left) :
    CutField table back key s ↔
      (kind ≠ .string ∧ rest = [] ∧ ∃ c ∈ back.head?, isDigit c = true) ∧
        intOf literal ≠ 0 := by
  constructor
  · intro h
    obtain ⟨hkind', hnumber, hends, hdigit, hisDigit, hliteral', hne⟩ := h
    obtain rfl := Option.some.inj (hkind.symm.trans hkind')
    obtain ⟨rfl, -⟩ := hliteral.unique hliteral'
    exact ⟨⟨hnumber, (htoken.unique hends).2, _, hdigit, hisDigit⟩, hne⟩
  · intro h
    obtain ⟨⟨hnumber, rfl, c, hc, hdigit⟩, hne⟩ := h
    exact ⟨hkind, hnumber, htoken, hc, hdigit, hliteral, hne⟩

theorem SpelledField.cases {m' : Literal}
    (h : SpelledField table back key s m' rest) :
    ∃ m, FieldItem table key s m rest ∧
      (m' = m ∧ ¬CutField table back key s ∨
        rest = [] ∧ Grows table back (CutField table back key s) m m') := by
  obtain ⟨hkind, htoken, haccepts, hliteral⟩ := h
  refine ⟨⟨key, _⟩, ⟨hkind, htoken, haccepts⟩, ?_⟩
  rw [cutField_iff hkind htoken hliteral]
  rcases htoken.longer back with ⟨hnot, hsame⟩ | ⟨hends, hgrown⟩
  · left
    obtain ⟨rfl, -⟩ := hliteral.unique hsame
    refine ⟨rfl, ?_⟩
    rintro ⟨⟨hnumber, hrest, c, hc, hdigit⟩, -⟩
    have hno := hnot.resolve_left hnumber hrest c hc
    rw [hdigit] at hno
    cases hno
  · right
    obtain ⟨rfl, -⟩ := hliteral.unique hgrown
    refine ⟨hends.2.1, rfl, hends.2.2, _, hkind, hends.1, ?_⟩
    rw [and_iff_right hends, ne_eq, ne_eq, not_iff_not,
      htoken.number_eq_iff hends.1 (digits_takeWhile hends.2.2)]

theorem FieldItem.exists_spelled {m : Literal}
    (h : FieldItem table key s m rest) (back : Bytes) :
    ∃ m', SpelledField table back key s m' rest := by
  obtain ⟨hkind, htoken, haccepts⟩ := h
  rcases htoken.longer back with ⟨-, hsame⟩ | ⟨-, hgrown⟩
  · exact ⟨_, hkind, htoken, haccepts, hsame⟩
  · exact ⟨_, hkind, htoken, haccepts, hgrown⟩

end Fields

/-! The members of an object. -/

section Items

variable {M : Type} {Item Item' : Bytes → Bytes → M → Bytes → Prop}
  {Overruns : Bytes → Bytes → Prop}

/-- Where every item has another reading that ends at the same place, so have
the members. -/
theorem Passes.exists_passes
    (hitem : ∀ {key s m rest}, Item key s m rest → ∃ m', Item' key s m' rest)
    {s rest : Bytes} {ms : List M} (h : Passes Item s ms rest) :
    ∃ ms', Passes Item' s ms' rest := by
  induction h with
  | here => exact ⟨[], .here⟩
  | next hkey hcolon hread _ ih =>
      obtain ⟨m', hread'⟩ := hitem hread
      obtain ⟨ms', hrest⟩ := ih
      exact ⟨m' :: ms', .next hkey hcolon hread' hrest⟩

theorem not_overrun_nil : ¬Overrun Item Overruns [] := by
  intro h
  cases h with
  | here hkey | next hkey => exact hkey.ne_nil rfl

theorem overrun_iff (hunique : EndsOnce Item)
    {s key afterKey afterColon afterValue : Bytes} {m : M}
    (hkey : Quoted s key afterKey) (hcolon : Colon afterKey afterColon)
    (hitem : Item key afterColon m afterValue) :
    Overrun Item Overruns s ↔
      Overruns key afterColon ∨
        Overrun Item Overruns (memberEnd afterValue) := by
  constructor
  · intro h
    cases h with
    | here hkey' hcolon' hover =>
        obtain ⟨rfl, rfl⟩ := hkey.unique hkey'
        obtain rfl := hcolon.unique hcolon'
        exact .inl hover
    | next hkey' hcolon' hitem' hover =>
        obtain ⟨rfl, rfl⟩ := hkey.unique hkey'
        obtain rfl := hcolon.unique hcolon'
        rw [hunique _ _ _ _ _ _ hitem hitem']
        exact .inr hover
  · intro h
    rcases h with hover | hover
    · exact .here hkey hcolon hover
    · exact .next hkey hcolon hitem hover

/-- The last item has another reading, and the others have not. -/
inductive LastGrows (Grown : Prop → M → M → Prop) (cut : Prop) :
    List M → List M → Prop
  | intro {init : List M} {m m' : M} :
      Grown cut m m' → LastGrows Grown cut (init ++ [m]) (init ++ [m'])

theorem LastGrows.cons {Grown : Prop → M → M → Prop} {cut : Prop}
    {ms ms' : List M} (m : M) (h : LastGrows Grown cut ms ms') :
    LastGrows Grown cut (m :: ms) (m :: ms') := by
  cases h with
  | @intro init last last' hgrown =>
      exact @LastGrows.intro _ _ _ (m :: init) _ _ hgrown

/-- If an item is read alike unless it is the last one, so are the members. -/
theorem Passes.compare (hunique : EndsOnce Item)
    {Grown : Prop → M → M → Prop}
    (hcompare : ∀ {key s rest m'}, Item' key s m' rest →
      ∃ m, Item key s m rest ∧
        (m' = m ∧ ¬Overruns key s ∨
          rest = [] ∧ Grown (Overruns key s) m m'))
    {body left : Bytes} {ms' : List M} (h : Passes Item' body ms' left)
    (hleft : left = []) :
    ∃ ms, Passes Item body ms [] ∧
      (ms' = ms ∧ ¬Overrun Item Overruns body ∨
        body ≠ [] ∧
          LastGrows Grown (Overrun Item Overruns body) ms ms') := by
  induction h with
  | here =>
      subst hleft
      exact ⟨[], .here, .inl ⟨rfl, not_overrun_nil⟩⟩
  | @next s afterKey afterColon afterValue left key m' ms' hkey hcolon hread
      hpasses ih =>
      obtain ⟨m, hitem, hm⟩ := hcompare hread
      obtain ⟨ms, hrest, hms⟩ := ih hleft
      refine ⟨m :: ms, .next hkey hcolon hitem hrest, ?_⟩
      rw [overrun_iff hunique hkey hcolon hitem]
      rcases hm with ⟨rfl, hnot⟩ | ⟨rfl, hgrown⟩
      · rw [or_iff_right hnot]
        rcases hms with ⟨rfl, hnone⟩ | ⟨-, hgrow⟩
        · exact .inl ⟨rfl, hnone⟩
        · exact .inr ⟨hkey.ne_nil, hgrow.cons m'⟩
      · have hend : memberEnd [] = [] := rfl
        rw [hend] at hrest hpasses ⊢
        subst hleft
        obtain rfl := passes_nil hrest
        obtain rfl := passes_nil hpasses
        rw [or_iff_left not_overrun_nil]
        exact .inr ⟨hkey.ne_nil, @LastGrows.intro _ _ _ [] _ _ hgrown⟩

end Items

/-! The sub-objects. -/

theorem ObjectAt.unique {s body body' rest rest' : Bytes}
    (h : ObjectAt s body rest) (h' : ObjectAt s body' rest') :
    body = body' ∧ rest = rest' := by
  obtain ⟨inside, inner, last, rfl, rfl, htrim, rfl⟩ := h.slice
  obtain ⟨inside', inner', last', hs, rfl, htrim', rfl⟩ := h'.slice
  obtain rfl := (List.cons.inj hs).2
  have hsame := (List.cons.inj (htrim.symm.trans htrim')).2
  obtain ⟨rfl, -⟩ := List.append_inj' hsame rfl
  exact ⟨rfl, rfl⟩

/-- Where a digit comes right behind the body, it is the byte that is lost, and
nothing comes after it. -/
theorem ObjectAt.rest_eq_nil {s body rest : Bytes} (h : ObjectAt s body rest)
    (hbody : body ≠ [])
    (hdigit : ∃ c ∈ (behind s body).head?, isDigit c = true) : rest = [] := by
  obtain ⟨inside, inner, last, rfl, rfl, htrim, rfl⟩ := h.slice
  obtain ⟨front, back, gap, hfront, hback, hgap, hinside⟩ := slice_split htrim
  have hstart : trimStart inside = trimmed inner ++
      (back ++ last :: (gap ++ (braceSpan 1 inside).2)) := by
    obtain ⟨c, tail, hcons⟩ := List.exists_cons_of_ne_nil hbody
    conv_lhs => rw [hinside]
    rw [List.append_assoc, trimStart_append hfront, hcons, List.cons_append,
      trimStart_of_not _ (trimStart_head hcons)]
  have hbehind : behind (lbrace :: inside) (trimmed inner) =
      back ++ last :: (gap ++ (braceSpan 1 inside).2) := by
    rw [behind, List.tail_cons, hstart, List.drop_left]
  obtain ⟨c, hc, hdigit⟩ := hdigit
  rw [hbehind] at hc
  cases back with
  | nil =>
      obtain rfl : last = c := by simpa using hc
      refine slice_open htrim ?_
      rintro rfl
      cases hdigit
  | cons d back =>
      obtain rfl : d = c := by simpa using hc
      have hspace := hback d List.mem_cons_self
      rw [isDigit_not_whitespace hdigit] at hspace
      cases hspace

/-- The last field of the sub-object is longer than what is left of it. -/
inductive ObjectGrows (cut : Prop) : Member → Member → Prop
  | intro {key back : Bytes} {table : Table} {fields fields' : List Literal} :
      applyTable key = some (.object table) →
      LastGrows (Grows table back) cut fields fields' →
      ObjectGrows cut (.object key fields) (.object key fields')

abbrev MembersGrow : Prop → List Member → List Member → Prop :=
  LastGrows ObjectGrows

theorem cutObject_iff {key s body rest : Bytes} {table : Table}
    (htable : applyTable key = some (.object table))
    (hobject : ObjectAt s body rest) :
    CutObject key s ↔
      Overrun (FieldItem table) (CutField table (behind s body)) body := by
  constructor
  · intro h
    obtain ⟨htable', hobject', hover⟩ := h
    obtain rfl := Value.object.inj
      (Option.some.inj (htable.symm.trans htable'))
    obtain ⟨rfl, -⟩ := hobject.unique hobject'
    exact hover
  · exact .intro htable hobject

theorem SpelledMember.cases {key s rest : Bytes} {m' : Member}
    (h : SpelledMember key s m' rest) :
    ∃ m, ApplyItem key s m rest ∧
      (m' = m ∧ ¬CutObject key s ∨
        rest = [] ∧ ObjectGrows (CutObject key s) m m') := by
  cases h with
  | literal hkind htoken haccepts =>
      refine ⟨_, .literal hkind htoken haccepts, .inl ⟨rfl, ?_⟩⟩
      rintro ⟨htable, -⟩
      have hnever := hkind.symm.trans htable
      simp at hnever
  | object htable hobject hpasses =>
      obtain ⟨fields, hfields, hgrow⟩ :=
        hpasses.compare FieldItem.endsOnce SpelledField.cases rfl
      refine ⟨.object key fields, .object htable hobject hfields, ?_⟩
      rw [cutObject_iff htable hobject]
      rcases hgrow with ⟨rfl, hnot⟩ | ⟨hne, hgrow⟩
      · exact .inl ⟨rfl, hnot⟩
      · refine .inr ⟨?_, .intro htable hgrow⟩
        cases hgrow with
        | intro hgrows => exact hobject.rest_eq_nil hne hgrows.digit

theorem ApplyItem.exists_spelled {key s rest : Bytes} {m : Member}
    (h : ApplyItem key s m rest) : ∃ m', SpelledMember key s m' rest := by
  cases h with
  | literal hkind htoken haccepts => exact ⟨_, .literal hkind htoken haccepts⟩
  | object htable hobject hpasses =>
      obtain ⟨fields', hfields⟩ :=
        hpasses.exists_passes fun hitem => hitem.exists_spelled _
      exact ⟨_, .object htable hobject hfields⟩

theorem Reads.exists_spells {payload : Bytes} {doc : List Member}
    (h : Reads payload doc) : ∃ doc', Spells payload doc' := by
  obtain ⟨body, hbody, hpasses⟩ := h
  obtain ⟨doc', hspelled⟩ := hpasses.exists_passes fun hitem => hitem.exists_spelled
  exact ⟨doc', body, hbody, hspelled⟩

theorem Spells.exists_reads {payload : Bytes} {doc' : List Member}
    (h : Spells payload doc') :
    ∃ doc, Reads payload doc ∧
      (doc' = doc ∧ ¬CutPayload payload ∨
        MembersGrow (CutPayload payload) doc doc') := by
  obtain ⟨body, hbody, hpasses⟩ := h
  obtain ⟨doc, hdoc, hgrow⟩ :=
    hpasses.compare ApplyItem.endsOnce SpelledMember.cases rfl
  have hcut : CutPayload payload ↔ Overrun ApplyItem CutObject body := by
    constructor
    · rintro ⟨body', hbody', hover⟩
      rwa [hbody.unique hbody']
    · exact fun hover => ⟨body, hbody, hover⟩
  rw [← hcut] at hgrow
  exact ⟨doc, ⟨body, hbody, hdoc⟩, hgrow.imp_right And.right⟩

/-! The values. -/

theorem MembersGrow.lastText {cut : Prop} {doc doc' : List Member}
    (h : MembersGrow cut doc doc') (key : Bytes) :
    lastText key doc' = lastText key doc := by
  obtain ⟨hobject⟩ := h
  cases hobject
  simp [Gov.lastText, Member.textUnder]

theorem lastField_concat (key field : Bytes) (init : List Member)
    (key' : Bytes) (fields : List Literal) (m : Literal) :
    lastField key field (init ++ [.object key' (fields ++ [m])]) =
      if key' = key then
        (m.under field).or (fields.filterMap (Literal.under field)).getLast?
      else
        lastField key field init := by
  by_cases hkey : key' = key
  · cases hunder : m.under field with
    | none => simp [lastField, Member.fieldsUnder, hkey, hunder]
    | some text => simp [lastField, Member.fieldsUnder, hkey, hunder]
  · simp [lastField, Member.fieldsUnder, hkey]

/-- The field that grows has this literal in the payload and this text in the
body. -/
structure GrownField (cut : Prop) (key field : Bytes) (doc doc' : List Member) :
    Prop where
  kind : ∃ table kind text literal,
    applyTable key = some (.object table) ∧ table field = some kind ∧
      kind ≠ .string ∧ lastField key field doc = some text ∧
      lastField key field doc' = some literal ∧
      (cut ↔ kind.number literal ≠ kind.number text)

theorem MembersGrow.exists_field {cut : Prop} {doc doc' : List Member}
    (h : MembersGrow cut doc doc') :
    ∃ key field, GrownField cut key field doc doc' ∧
      ∀ key' field', (key' ≠ key ∨ field' ≠ field) →
        lastField key' field' doc' = lastField key' field' doc := by
  obtain ⟨hobject⟩ := h
  obtain ⟨htable, hgrow⟩ := hobject
  obtain ⟨hgrows⟩ := hgrow
  obtain ⟨kind, hkind, hnumber, hcut⟩ := hgrows.number
  refine ⟨_, _, ⟨_, kind, _, _, htable, hkind, hnumber, ?_, ?_, hcut⟩, ?_⟩
  · simp [lastField_concat, Literal.under]
  · simp [lastField_concat, Literal.under, hgrows.key]
  · intro key' field' hne
    rw [lastField_concat, lastField_concat]
    split
    · next hkey =>
        have hfield := hne.resolve_left fun hnot => hnot hkey.symm
        simp [Literal.under, hgrows.key, hfield.symm]
    · rfl

theorem applyTable_object_cases {key : Bytes} {table : Table}
    (h : applyTable key = some (.object table)) :
    key = bytes "cpu" ∧ table = cpuTable ∨
      key = bytes "mem" ∧ table = memTable ∨
      key = bytes "pids" ∧ table = pidsTable ∨
      key = bytes "rlim" ∧ table = rlimTable := by
  unfold applyTable at h
  split_ifs at h with hpid hcpu hmem hpids hrlim hoom <;> simp_all

theorem map_number_uint_iff {n : Nat} {a b : Option Bytes} :
    a.map (Kind.number (.uint n)) = b.map (Kind.number (.uint n)) ↔
      a.map natOf = b.map natOf := by
  have hcast (x : Option Bytes) : x.map (Kind.number (.uint n)) =
      (x.map natOf).map Nat.cast := by
    rw [Option.map_map]
    rfl
  rw [hcast, hcast]
  exact (Option.map_injective Nat.cast_injective).eq_iff

section Written

variable {doc doc' : List Member} {msg : GovApplyMsg}

/-- Two documents a message is written in spell the same numbers. -/
theorem WrittenValues.number_eq (h : WrittenValues doc msg)
    (h' : WrittenValues doc' msg) {key field : Bytes} {table : Table}
    {kind : Kind} (htable : applyTable key = some (.object table))
    (hkind : table field = some kind) (hnumber : kind ≠ .string) :
    (lastField key field doc').map kind.number =
      (lastField key field doc).map kind.number := by
  rcases applyTable_object_cases htable with
    ⟨rfl, rfl⟩ | ⟨rfl, rfl⟩ | ⟨rfl, rfl⟩ | ⟨rfl, rfl⟩
  · unfold cpuTable at hkind
    split_ifs at hkind with haffinity hnice hmax
    · exact absurd (Option.some.inj hkind).symm hnumber
    · obtain rfl := Option.some.inj hkind
      subst hnice
      exact h'.nice.symm.trans h.nice
    · obtain rfl := Option.some.inj hkind
      subst hmax
      exact map_number_uint_iff.mpr (h'.maxPct.symm.trans h.maxPct)
  · unfold memTable at hkind
    split_ifs at hkind with hmax
    obtain rfl := Option.some.inj hkind
    subst hmax
    exact map_number_uint_iff.mpr (h'.maxBytes.symm.trans h.maxBytes)
  · unfold pidsTable at hkind
    split_ifs at hkind with hmax
    obtain rfl := Option.some.inj hkind
    subst hmax
    exact map_number_uint_iff.mpr (h'.max.symm.trans h.max)
  · unfold rlimTable at hkind
    split_ifs at hkind with hsoft hhard hcoreSoft hcoreHard
    · obtain rfl := Option.some.inj hkind
      subst hsoft
      exact map_number_uint_iff.mpr (h'.nofileSoft.symm.trans h.nofileSoft)
    · obtain rfl := Option.some.inj hkind
      subst hhard
      exact map_number_uint_iff.mpr (h'.nofileHard.symm.trans h.nofileHard)
    · obtain rfl := Option.some.inj hkind
      subst hcoreSoft
      exact map_number_uint_iff.mpr (h'.coreSoft.symm.trans h.coreSoft)
    · obtain rfl := Option.some.inj hkind
      subst hcoreHard
      exact map_number_uint_iff.mpr (h'.coreHard.symm.trans h.coreHard)

theorem WrittenValues.congr (h : WrittenValues doc msg)
    (htext : ∀ key, lastText key doc' = lastText key doc)
    (hfield : ∀ {key field table kind},
      applyTable key = some (.object table) → table field = some kind →
        (lastField key field doc').map kind.number =
          (lastField key field doc).map kind.number) :
    WrittenValues doc' msg where
  pid := by
    rw [htext]
    exact h.pid
  nice := h.nice.trans (hfield applyTable_cpu cpuTable_nice).symm
  maxPct := h.maxPct.trans
    (map_number_uint_iff.mp (hfield applyTable_cpu cpuTable_maxPct)).symm
  maxBytes := h.maxBytes.trans
    (map_number_uint_iff.mp (hfield applyTable_mem memTable_maxBytes)).symm
  max := h.max.trans
    (map_number_uint_iff.mp (hfield applyTable_pids pidsTable_max)).symm
  nofileSoft := h.nofileSoft.trans
    (map_number_uint_iff.mp (hfield applyTable_rlim rlimTable_nofileSoft)).symm
  nofileHard := h.nofileHard.trans
    (map_number_uint_iff.mp (hfield applyTable_rlim rlimTable_nofileHard)).symm
  coreSoft := h.coreSoft.trans
    (map_number_uint_iff.mp (hfield applyTable_rlim rlimTable_coreSoft)).symm
  coreHard := h.coreHard.trans
    (map_number_uint_iff.mp (hfield applyTable_rlim rlimTable_coreHard)).symm
  oomScoreAdj := by
    rw [htext]
    exact h.oomScoreAdj

end Written

/-- Where a literal grows, the message has its number unless it is cut. -/
theorem MembersGrow.written_iff {cut : Prop} {doc doc' : List Member}
    {msg : GovApplyMsg} (h : MembersGrow cut doc doc')
    (hpid : some msg.pid.toInt = (Gov.lastText (bytes "pid") doc).map intOf ∧
        1 ≤ msg.pid.toInt ∧ msg.pid.toInt ≤ 2 ^ 31 - 1 →
      WrittenValues doc msg) :
    WrittenValues doc' msg ↔ WrittenValues doc msg ∧ ¬cut := by
  obtain ⟨key, field, hgrown, hothers⟩ := h.exists_field
  obtain ⟨table, kind, text, literal, htable, hkind, hnumber, htext, hliteral,
    hcut⟩ := hgrown.kind
  constructor
  · intro hwritten
    have hbody : WrittenValues doc msg := by
      refine hpid ?_
      rw [← h.lastText]
      exact hwritten.pid
    refine ⟨hbody, ?_⟩
    rw [hcut, not_not]
    have hsame := hbody.number_eq hwritten htable hkind hnumber
    rw [htext, hliteral] at hsame
    exact Option.some.inj hsame
  · intro hbody
    obtain ⟨hbody, hnot⟩ := hbody
    rw [hcut, not_not] at hnot
    refine hbody.congr h.lastText ?_
    intro key' field' table' kind' htable' hkind'
    by_cases hother : key' ≠ key ∨ field' ≠ field
    · rw [hothers key' field' hother]
    · push Not at hother
      obtain ⟨rfl, rfl⟩ := hother
      obtain rfl := Value.object.inj
        (Option.some.inj (htable.symm.trans htable'))
      obtain rfl := Option.some.inj (hkind.symm.trans hkind')
      rw [htext, hliteral, Option.map_some, Option.map_some, hnot]

/-- The numbers of an accepted message are the written ones exactly when the
last pid fits 32 bits and no sub-object is cut out in the middle of a number. -/
theorem writtenValues_iff {payload : Bytes} {result : ParseResult}
    (h : parseGovApply payload = .ok result) (hack : result.ack = .ack) :
    (∃ doc, Spells payload doc) ∧ ∀ doc, Spells payload doc →
      (WrittenValues doc result.msg ↔
        (∀ text, lastText (bytes "pid") doc = some text →
          intOf text ≤ 2 ^ 31 - 1) ∧ ¬CutPayload payload) := by
  obtain ⟨doc, hreads, _⟩ := exists_reads_of_ack h hack
  refine ⟨hreads.exists_spells, ?_⟩
  intro doc' hspells
  obtain ⟨doc, hreads, hgrow⟩ := hspells.exists_reads
  rw [parseGovApply_of_reads hreads] at h
  obtain ⟨view, draft, hdraft, hpid, rfl⟩ := conclude_ack (by simp) h hack
  cases hdraft
  have hbody := writtenValues_draft_iff hreads.accepted rfl hpid
  rcases hgrow with ⟨rfl, hnot⟩ | hgrow
  · rw [and_iff_left hnot]
    exact hbody
  · rw [hgrow.written_iff (writtenValues_of_pid hreads.accepted rfl),
      hbody, hgrow.lastText]

theorem writtenValues_small_pid :
    ∃ result, parseGovApply (bytes "\x7b\"pid\":7\x7d") = .ok result ∧
      result.ack = .ack ∧
      (∃ doc, Spells (bytes "\x7b\"pid\":7\x7d") doc) ∧
      ∀ doc, Spells (bytes "\x7b\"pid\":7\x7d") doc →
        (WrittenValues doc result.msg ↔
          (∀ text, lastText (bytes "pid") doc = some text →
            intOf text ≤ 2 ^ 31 - 1) ∧
          ¬CutPayload (bytes "\x7b\"pid\":7\x7d")) := by
  have hparse : parseGovApply (bytes "\x7b\"pid\":7\x7d") =
      .ok { success := true, ack := .ack, msg := { pid := 7 } } := by
    decide +kernel
  exact ⟨_, hparse, rfl, writtenValues_iff hparse rfl⟩

/-! The two ways to lose a number. -/

theorem token_of_digits {lo hi : Int} {digits rest : Bytes} (h : Digits digits)
    (hrest : ∀ c ∈ rest.head?, isDigit c = false) :
    Kind.Token (.int lo hi) (digits ++ rest) digits rest :=
  ⟨[], [], digits, blank_nil, .inr rfl, h, rfl, hrest, rfl⟩

theorem token_digits {lo hi : Int} {digits : Bytes} (h : Digits digits) :
    Kind.Token (.int lo hi) digits digits [] := by
  have htoken : Kind.Token (.int lo hi) (digits ++ []) digits [] :=
    token_of_digits h (by simp)
  rwa [List.append_nil] at htoken

/-- A pid beyond 32 bits is cut down: this one to 1. -/
theorem wide_pid_spells :
    Spells (bytes "\x7b\"pid\":4294967297\x7d")
      [.literal ⟨bytes "pid", bytes "4294967297"⟩] := by
  have hbody : Body (bytes "\x7b\"pid\":4294967297\x7d")
      (bytes "\"pid\":4294967297") :=
    ⟨by decide +kernel, bytes "\"pid\":4294967297", by decide +kernel,
      by decide +kernel⟩
  have hkey : Quoted (bytes "\"pid\":4294967297") (bytes "pid")
      (bytes ":4294967297") := quoted_of_parseKey (by decide +kernel)
  have hcolon : Colon (bytes ":4294967297") (bytes "4294967297") :=
    ⟨[], blank_nil, by decide +kernel⟩
  have hdigits : Digits (bytes "4294967297") :=
    ⟨by decide +kernel, by decide +kernel⟩
  have haccepts : Kind.Accepts (.int 1 (2 ^ 63 - 1))
      (bytes "4294967297") := by
    have hint : intOf (bytes "4294967297") = 4294967297 := by decide +kernel
    simp only [Kind.Accepts, hint]
    omega
  exact ⟨_, hbody, .next hkey hcolon
    (.literal applyTable_pid (token_digits hdigits) haccepts) .here⟩

/-- The brace of the sub-object is missing, and a digit goes in its place. -/
theorem cut_nice_spells :
    Spells (bytes "\x7b\"pid\":1,\"cpu\":\x7b\"nice\":55\x7d")
      [.literal ⟨bytes "pid", bytes "1"⟩,
        .object (bytes "cpu") [⟨bytes "nice", bytes "55"⟩]] := by
  have hbody : Body (bytes "\x7b\"pid\":1,\"cpu\":\x7b\"nice\":55\x7d")
      (bytes "\"pid\":1,\"cpu\":\x7b\"nice\":55") :=
    ⟨by decide +kernel, bytes "\"pid\":1,\"cpu\":\x7b\"nice\":55",
      by decide +kernel, by decide +kernel⟩
  have hpid : SpelledMember (bytes "pid")
      (bytes "1" ++ bytes ",\"cpu\":\x7b\"nice\":55")
      (.literal ⟨bytes "pid", bytes "1"⟩)
      (bytes ",\"cpu\":\x7b\"nice\":55") := by
    refine .literal applyTable_pid (token_of_digits ?_ ?_) ?_
    · exact ⟨by decide +kernel, by decide +kernel⟩
    · decide +kernel
    · have hint : intOf (bytes "1") = 1 := by decide +kernel
      simp only [Kind.Accepts, hint]
      omega
  have hnice : SpelledField cpuTable (bytes "5") (bytes "nice") (bytes "5")
      ⟨bytes "nice", bytes "55"⟩ [] := by
    have hjoined : bytes "5" ++ bytes "5" = bytes "55" := by decide +kernel
    have hliteral : Kind.Token (.int (-128) 127) (bytes "5" ++ bytes "5")
        (bytes "55") [] := by
      rw [hjoined]
      exact token_digits ⟨by decide +kernel, by decide +kernel⟩
    refine .intro cpuTable_nice (token_digits ?_) ?_ hliteral
    · exact ⟨by decide +kernel, by decide +kernel⟩
    · have hint : intOf (bytes "5") = 5 := by decide +kernel
      simp only [Kind.Accepts, hint]
      omega
  have hcpu : SpelledMember (bytes "cpu") (bytes "\x7b\"nice\":55")
      (.object (bytes "cpu") [⟨bytes "nice", bytes "55"⟩]) [] := by
    have hobject : ObjectAt (bytes "\x7b\"nice\":55") (bytes "\"nice\":5") [] :=
      ⟨bytes "\"nice\":55", bytes "\"nice\":5", 0x35, by decide +kernel,
        by decide +kernel, by decide +kernel, by decide +kernel⟩
    have hbehind : behind (bytes "\x7b\"nice\":55") (bytes "\"nice\":5") =
        bytes "5" := by
      decide +kernel
    refine .object applyTable_cpu hobject ?_
    rw [hbehind]
    have hkey : Quoted (bytes "\"nice\":5") (bytes "nice") (bytes ":5") :=
      quoted_of_parseKey (by decide +kernel)
    exact .next hkey ⟨[], blank_nil, by decide +kernel⟩ hnice .here
  have hpidKey : Quoted (bytes "\"pid\":1,\"cpu\":\x7b\"nice\":55")
      (bytes "pid") (bytes ":1,\"cpu\":\x7b\"nice\":55") :=
    quoted_of_parseKey (by decide +kernel)
  have hcpuKey : Quoted (memberEnd (bytes ",\"cpu\":\x7b\"nice\":55"))
      (bytes "cpu") (bytes ":\x7b\"nice\":55") :=
    quoted_of_parseKey (by decide +kernel)
  exact ⟨_, hbody, .next hpidKey ⟨[], blank_nil, by decide +kernel⟩ hpid
    (.next hcpuKey ⟨[], blank_nil, by decide +kernel⟩ hcpu .here)⟩

/-- Both payloads are accepted, with another pid and another nice value than they
spell. -/
theorem accepted_values_differ :
    (∃ result doc,
      parseGovApply (bytes "\x7b\"pid\":4294967297\x7d") = .ok result ∧
        result.ack = .ack ∧
        Spells (bytes "\x7b\"pid\":4294967297\x7d") doc ∧
        ¬WrittenValues doc result.msg) ∧
      ∃ result doc,
        parseGovApply (bytes "\x7b\"pid\":1,\"cpu\":\x7b\"nice\":55\x7d") =
            .ok result ∧
          result.ack = .ack ∧
          Spells (bytes "\x7b\"pid\":1,\"cpu\":\x7b\"nice\":55\x7d") doc ∧
          ¬WrittenValues doc result.msg := by
  have hpid : parseGovApply (bytes "\x7b\"pid\":4294967297\x7d") =
      .ok { success := true, ack := .ack, msg := { pid := 1 } } := by
    decide +kernel
  have hnice : parseGovApply
      (bytes "\x7b\"pid\":1,\"cpu\":\x7b\"nice\":55\x7d") =
        .ok { success := true, ack := .ack,
              msg := { pid := 1, cpu := some { nice := some 5 } } } := by
    decide +kernel
  refine ⟨⟨_, _, hpid, rfl, wide_pid_spells, ?_⟩,
    ⟨_, _, hnice, rfl, cut_nice_spells, ?_⟩⟩
  · intro h
    exact absurd h.pid.1 (by decide +kernel)
  · intro h
    exact absurd h.nice (by decide +kernel)

end HeidiKernel.Gov
