import HeidiKernel.GovRule.Token

namespace HeidiKernel.Gov

/-! The well-formed payloads. The grammar is read from left to right: a rule
relates a view to what is left of it, and no rule looks for braces ahead. -/

/-- The members of an object up to its own closing brace. One comma stands
between two members, and one more may follow the last. -/
inductive Members (Value : Bytes → Bytes → Bytes → Prop) :
    Bytes → Bytes → Prop
  | none {s rest : Bytes} : After rbrace s rest → Members Value s rest
  | last {s key afterKey afterColon afterValue rest : Bytes} :
      Quoted s key afterKey → Colon afterKey afterColon →
      Value key afterColon afterValue → After rbrace afterValue rest →
      Members Value s rest
  | more {s key afterKey afterColon afterValue afterComma rest : Bytes} :
      Quoted s key afterKey → Colon afterKey afterColon →
      Value key afterColon afterValue → After comma afterValue afterComma →
      Members Value afterComma rest → Members Value s rest

inductive FieldValue (table : Table) : Bytes → Bytes → Bytes → Prop
  | intro {key s text rest : Bytes} {kind : Kind} :
      table key = some kind → kind.Token s text rest →
      FieldValue table key s rest

inductive ApplyValue : Bytes → Bytes → Bytes → Prop
  | literal {key s text rest : Bytes} {kind : Kind} :
      applyTable key = some (.literal kind) → kind.Token s text rest →
      ApplyValue key s rest
  | object {key s inside rest : Bytes} {table : Table} :
      applyTable key = some (.object table) → After lbrace s inside →
      Members (FieldValue table) inside rest → ApplyValue key s rest

/-- The trimmed payload is one object, from its first byte to its last. -/
def WellFormed (payload : Bytes) : Prop :=
  ∃ inside, trimmed payload = lbrace :: inside ∧
    Members ApplyValue inside []

theorem Members.closes {Value : Bytes → Bytes → Bytes → Prop}
    (hvalue : ∀ {key s rest}, Value key s rest → rest <:+ s)
    {s rest : Bytes} (h : Members Value s rest) : rbrace :: rest <:+ s := by
  induction h with
  | none hclose => exact hclose.suffix
  | last hkey hcolon hread hclose =>
      exact hclose.suffix.trans ((hvalue hread).trans
        ((List.suffix_cons _ _).trans
          ((After.suffix hcolon).trans hkey.suffix)))
  | more hkey hcolon hread hcomma _ ih =>
      exact ih.trans ((List.suffix_cons _ _).trans (hcomma.suffix.trans
        ((hvalue hread).trans ((List.suffix_cons _ _).trans
          ((After.suffix hcolon).trans hkey.suffix)))))

theorem FieldValue.suffix {table : Table} {key s rest : Bytes}
    (h : FieldValue table key s rest) : rest <:+ s := by
  obtain ⟨_, htoken⟩ := h
  exact htoken.suffix

theorem ApplyValue.suffix {key s rest : Bytes} (h : ApplyValue key s rest) :
    rest <:+ s := by
  cases h with
  | literal _ htoken => exact htoken.suffix
  | object _ hopen hmembers =>
      exact (List.suffix_cons _ _).trans
        ((hmembers.closes FieldValue.suffix).trans
          ((List.suffix_cons _ _).trans hopen.suffix))

theorem Members.of_quoted {Value : Bytes → Bytes → Bytes → Prop}
    {s key afterKey afterColon rest : Bytes}
    (hkey : Quoted s key afterKey) (hcolon : Colon afterKey afterColon)
    (h : Members Value s rest) :
    ∃ afterValue, Value key afterColon afterValue ∧
      (After rbrace afterValue rest ∨
        ∃ afterComma, After comma afterValue afterComma ∧
          Members Value afterComma rest) := by
  cases h with
  | none hclose =>
      exact absurd hkey
        (not_quoted_of_after (by decide) (by decide) hclose)
  | last hkey' hcolon' hread hclose =>
      obtain ⟨rfl, rfl⟩ := hkey.unique hkey'
      obtain rfl := hcolon.unique hcolon'
      exact ⟨_, hread, .inl hclose⟩
  | more hkey' hcolon' hread hcomma hmembers =>
      obtain ⟨rfl, rfl⟩ := hkey.unique hkey'
      obtain rfl := hcolon.unique hcolon'
      exact ⟨_, hread, .inr ⟨_, hcomma, hmembers⟩⟩

/-! The braces of a well-formed payload balance, those in strings aside. -/

mutual
def outsideStrings : Bytes → Bytes
  | [] => []
  | c :: s => if c = quote then afterString s else c :: outsideStrings s

/-- What is outside of strings, from inside of one. -/
def afterString : Bytes → Bytes
  | [] => []
  | [c] => if c = quote then outsideStrings [] else []
  | c :: d :: s =>
      if c = quote then outsideStrings (d :: s)
      else if c = backslash then afterString s
      else afterString (d :: s)
end

/-- The depth after a text, if no brace closes what was not opened. -/
def depthAfter : Nat → Bytes → Option Nat
  | depth, [] => some depth
  | depth, c :: s =>
      if c = lbrace then depthAfter (depth + 1) s
      else if c = rbrace then
        if depth = 0 then none else depthAfter (depth - 1) s
      else depthAfter depth s

def Balanced (s : Bytes) : Prop := depthAfter 0 (outsideStrings s) = some 0

theorem afterString_cons (c : UInt8) (s : Bytes) :
    afterString (c :: s) =
      if c = quote then outsideStrings s
      else if c = backslash then afterString s.tail
      else afterString s := by
  cases s with
  | nil => simp [afterString]
  | cons d s => rw [afterString, List.tail_cons]

theorem afterString_units {text : Bytes} (h : Units text) (rest : Bytes) :
    afterString (text ++ quote :: rest) = outsideStrings rest := by
  induction h with
  | nil => rw [List.nil_append, afterString_cons, if_pos rfl]
  | plain hquote hback _ ih =>
      rw [List.cons_append, afterString_cons, if_neg hquote, if_neg hback, ih]
  | escaped _ ih =>
      rw [List.cons_append, afterString_cons, if_neg (by decide), if_pos rfl,
        List.cons_append, List.tail_cons, ih]

/-- A view and what a value leaves of it: the depth is the same. -/
def Level (s rest : Bytes) : Prop :=
  ∀ depth, depthAfter depth (outsideStrings s) =
    depthAfter depth (outsideStrings rest)

theorem Level.trans {s t rest : Bytes} (hs : Level s t) (ht : Level t rest) :
    Level s rest := fun depth => (hs depth).trans (ht depth)

/-- Neither a brace nor a quote. -/
def isInert (c : UInt8) : Bool := c ≠ quote && c ≠ lbrace && c ≠ rbrace

theorem level_append {front : Bytes}
    (h : ∀ c ∈ front, isInert c = true) (s : Bytes) :
    Level (front ++ s) s := by
  induction front with
  | nil => exact fun _ => rfl
  | cons c front ih =>
      obtain ⟨hc, hfront⟩ := List.forall_mem_cons.mp h
      simp only [isInert, ne_eq, Bool.and_eq_true, decide_eq_true_eq] at hc
      intro depth
      rw [List.cons_append, outsideStrings, if_neg hc.1.1, depthAfter,
        if_neg hc.1.2, if_neg hc.2]
      exact ih hfront depth

theorem isInert_of_whitespace {c : UInt8} (h : isWhitespace c = true) :
    isInert c = true := by
  rcases whitespace_cases h with rfl | rfl | rfl | rfl <;> rfl

theorem isInert_of_digit {c : UInt8} (h : isDigit c = true) :
    isInert c = true := by
  have hquote : c ≠ quote := by rintro rfl; contradiction
  have hl : c ≠ lbrace := by rintro rfl; contradiction
  have hr : c ≠ rbrace := by rintro rfl; contradiction
  simp [isInert, hquote, hl, hr]

theorem level_blank {blank : Bytes} (h : Blank blank) (s : Bytes) :
    Level (blank ++ s) s :=
  level_append (fun c hc => isInert_of_whitespace (h c hc)) s

theorem level_digits {digits : Bytes} (h : Digits digits) (s : Bytes) :
    Level (digits ++ s) s :=
  level_append (fun c hc => isInert_of_digit (h.all c hc)) s

theorem After.level {c : UInt8} (hc : isInert c = true) {s rest : Bytes}
    (h : After c s rest) : Level s rest := by
  obtain ⟨blank, hblank, rfl⟩ := h
  have hfront : ∀ d ∈ [c], isInert d = true := by simpa using hc
  exact (level_blank hblank _).trans (level_append hfront rest)

theorem Quoted.level {s key rest : Bytes} (h : Quoted s key rest) :
    Level s rest := by
  obtain ⟨blank, hblank, hunits, rfl⟩ := h
  rw [List.append_assoc]
  refine (level_blank hblank _).trans fun depth => ?_
  rw [List.cons_append, outsideStrings, if_pos rfl, afterString_units hunits]

theorem Kind.Token.level {kind : Kind} {s text rest : Bytes}
    (h : kind.Token s text rest) : Level s rest := by
  cases kind with
  | string => exact Quoted.level h
  | int lo hi =>
      obtain ⟨blank, sign, digits, hblank, hsign, hdigits, rfl, _, rfl⟩ := h
      rw [List.append_assoc, List.append_assoc]
      refine (level_blank hblank _).trans ?_
      have hinert : ∀ c ∈ sign, isInert c = true := by
        rcases hsign with rfl | rfl
        · exact List.forall_mem_singleton.mpr (by decide)
        · exact List.forall_mem_nil _
      exact (level_append hinert _).trans (level_digits hdigits rest)
  | uint hi =>
      obtain ⟨blank, hblank, hdigits, _, rfl⟩ := h
      rw [List.append_assoc]
      exact (level_blank hblank _).trans (level_digits hdigits rest)

theorem After.closes_level {s rest : Bytes} (h : After rbrace s rest)
    (depth : Nat) :
    depthAfter (depth + 1) (outsideStrings s) =
      depthAfter depth (outsideStrings rest) := by
  obtain ⟨blank, hblank, rfl⟩ := h
  rw [level_blank hblank, outsideStrings, if_neg (by decide), depthAfter,
    if_neg (by decide), if_pos rfl, if_neg (Nat.succ_ne_zero depth)]
  rfl

theorem Members.closes_level {Value : Bytes → Bytes → Bytes → Prop}
    (hvalue : ∀ {key s rest}, Value key s rest → Level s rest)
    {s rest : Bytes} (h : Members Value s rest) (depth : Nat) :
    depthAfter (depth + 1) (outsideStrings s) =
      depthAfter depth (outsideStrings rest) := by
  have hmember {s key afterKey afterColon afterValue : Bytes}
      (hkey : Quoted s key afterKey) (hcolon : Colon afterKey afterColon)
      (hread : Value key afterColon afterValue) : Level s afterValue :=
    hkey.level.trans ((After.level (by decide) hcolon).trans (hvalue hread))
  induction h with
  | none hclose => exact hclose.closes_level depth
  | last hkey hcolon hread hclose =>
      rw [hmember hkey hcolon hread, hclose.closes_level]
  | more hkey hcolon hread hcomma _ ih =>
      rw [hmember hkey hcolon hread, hcomma.level (by decide), ih]

theorem FieldValue.level {table : Table} {key s rest : Bytes}
    (h : FieldValue table key s rest) : Level s rest := by
  obtain ⟨_, htoken⟩ := h
  exact htoken.level

theorem After.opens_level {s rest : Bytes} (h : After lbrace s rest)
    (depth : Nat) :
    depthAfter depth (outsideStrings s) =
      depthAfter (depth + 1) (outsideStrings rest) := by
  obtain ⟨blank, hblank, rfl⟩ := h
  rw [level_blank hblank, outsideStrings, if_neg (by decide), depthAfter,
    if_pos rfl]

theorem ApplyValue.level {key s rest : Bytes} (h : ApplyValue key s rest) :
    Level s rest := by
  cases h with
  | literal _ htoken => exact htoken.level
  | object _ hopen hmembers =>
      intro depth
      rw [hopen.opens_level, hmembers.closes_level FieldValue.level]

theorem WellFormed.balanced {payload : Bytes} (h : WellFormed payload) :
    Balanced (trimmed payload) := by
  obtain ⟨inside, htrim, hmembers⟩ := h
  have hopen : After lbrace (trimmed payload) inside :=
    ⟨[], blank_nil, by rw [htrim]; rfl⟩
  rw [Balanced, hopen.opens_level, hmembers.closes_level ApplyValue.level]
  rfl

end HeidiKernel.Gov
