import HeidiKernel.GovRule.Values

namespace HeidiKernel.Gov

/-! The compact text of a document: no blanks between the tokens, one comma
between two members, numbers in decimal. -/

def digit (n : Nat) : UInt8 := UInt8.ofNat (0x30 + n % 10)

def decimal (n : Nat) : Bytes :=
  if n < 10 then [digit n] else decimal (n / 10) ++ [digit n]

def decimalInt (n : Int) : Bytes :=
  if n < 0 then minus :: decimal n.natAbs else decimal n.natAbs

inductive Scalar
  | string (text : Bytes)
  | number (value : Int)
  deriving DecidableEq, Repr

structure Entry where
  key : Bytes
  value : Scalar
  deriving DecidableEq, Repr

inductive Element
  | scalar (entry : Entry)
  | object (key : Bytes) (entries : List Entry)
  deriving DecidableEq, Repr

def printQuoted (text : Bytes) : Bytes := quote :: (text ++ [quote])

def printMember (key value : Bytes) : Bytes := printQuoted key ++ colon :: value

def separated : List Bytes → Bytes
  | [] => []
  | [text] => text
  | text :: next :: texts => text ++ comma :: separated (next :: texts)

def printObject (members : List Bytes) : Bytes :=
  lbrace :: (separated members ++ [rbrace])

def Scalar.print : Scalar → Bytes
  | string text => printQuoted text
  | number value => decimalInt value

def Entry.print (entry : Entry) : Bytes :=
  printMember entry.key entry.value.print

def Element.print : Element → Bytes
  | scalar entry => entry.print
  | object key entries =>
      printMember key (printObject (entries.map Entry.print))

def printDocument (elements : List Element) : Bytes :=
  printObject (elements.map Element.print)

/-! What a printed document spells. -/

def Scalar.text : Scalar → Bytes
  | string text => text
  | number value => decimalInt value

def Entry.literal (entry : Entry) : Literal := ⟨entry.key, entry.value.text⟩

def Element.member : Element → Member
  | scalar entry => .literal entry.literal
  | object key entries => .object key (entries.map Entry.literal)

/-- A text that needs no escape, and that the brace matcher can pass. -/
def Plain (text : Bytes) : Prop :=
  ∀ c ∈ text, c ≠ quote ∧ c ≠ backslash ∧ c ≠ lbrace ∧ c ≠ rbrace

instance (text : Bytes) : Decidable (Plain text) :=
  List.decidableBAll _ text

inductive Kind.Takes : Kind → Scalar → Prop
  | string {text : Bytes} : Plain text → Takes .string (.string text)
  | int {lo hi value : Int} :
      lo ≤ value → value ≤ hi → Takes (.int lo hi) (.number value)
  | uint {hi value : Nat} : value ≤ hi → Takes (.uint hi) (.number value)

def Entry.Fits (table : Table) (entry : Entry) : Prop :=
  Plain entry.key ∧
    ∃ kind, table entry.key = some kind ∧ kind.Takes entry.value

inductive Element.Fits : Element → Prop
  | scalar {entry : Entry} {kind : Kind} :
      Plain entry.key → applyTable entry.key = some (.literal kind) →
      kind.Takes entry.value → Fits (.scalar entry)
  | object {key : Bytes} {table : Table} {entries : List Entry} :
      Plain key → applyTable key = some (.object table) →
      (∀ entry ∈ entries, entry.Fits table) → Fits (.object key entries)

/-! Decimal numbers. -/

theorem digit_toNat (n : Nat) : (digit n).toNat = 0x30 + n % 10 := by
  have hlt : 0x30 + n % 10 < 256 := by omega
  simp [digit, Nat.mod_eq_of_lt hlt]

theorem isDigit_digit (n : Nat) : isDigit (digit n) = true := by
  have hvalue := digit_toNat n
  simp only [isDigit, Bool.and_eq_true, decide_eq_true_eq, UInt8.le_iff_toNat_le,
    hvalue]
  change 48 ≤ _ ∧ _ ≤ 57
  omega

theorem decimal_digits (n : Nat) : Digits (decimal n) := by
  induction n using Nat.strong_induction_on with
  | _ n ih =>
      rw [decimal]
      split_ifs with hsmall
      · refine ⟨List.cons_ne_nil _ _, ?_⟩
        intro c hc
        rw [List.mem_singleton.mp hc]
        exact isDigit_digit n
      · refine ⟨List.concat_ne_nil _ _, ?_⟩
        intro c hc
        rcases List.mem_append.mp hc with hfront | hlast
        · exact (ih (n / 10) (by omega)).all c hfront
        · rw [List.mem_singleton.mp hlast]
          exact isDigit_digit n

theorem natOf_concat (front : Bytes) (c : UInt8) :
    natOf (front ++ [c]) = 10 * natOf front + (c.toNat - 0x30) := by
  simp [natOf]

theorem natOf_decimal (n : Nat) : natOf (decimal n) = n := by
  induction n using Nat.strong_induction_on with
  | _ n ih =>
      rw [decimal]
      split_ifs with hsmall
      · change 10 * 0 + ((digit n).toNat - 0x30) = n
        rw [digit_toNat]
        omega
      · rw [natOf_concat, ih (n / 10) (by omega), digit_toNat]
        omega

theorem intOf_digits {digits : Bytes} (h : Digits digits) :
    intOf digits = natOf digits := by
  obtain ⟨c, tail, rfl, hc⟩ := h.exists_cons
  have hne := isDigit_ne_minus hc
  simp [intOf, hne]

theorem intOf_decimalInt (n : Int) : intOf (decimalInt n) = n := by
  unfold decimalInt
  split_ifs with hneg
  · have hminus : intOf (minus :: decimal n.natAbs) =
        -(natOf (decimal n.natAbs) : Int) := rfl
    rw [hminus, natOf_decimal]
    omega
  · rw [intOf_digits (decimal_digits _), natOf_decimal]
    omega

/-! Texts that trimming leaves alone. -/

structure Solid (s : Bytes) : Prop where
  front : ∃ c tail, s = c :: tail ∧ isWhitespace c = false
  back : ∃ init c, s = init ++ [c] ∧ isWhitespace c = false

namespace Solid

variable {s t : Bytes}

theorem trimEnd_eq (h : Solid s) : trimEnd s = s := by
  obtain ⟨init, c, rfl, hc⟩ := h.back
  rw [trimEnd, List.rdropWhile_concat_neg _ _ _ (by simp [hc])]

theorem trimmed_eq (h : Solid s) : trimmed s = s := by
  rw [trimmed, h.trimEnd_eq]
  obtain ⟨c, tail, rfl, hc⟩ := h.front
  exact trimStart_of_not tail hc

theorem wrap {a b : UInt8} (ha : isWhitespace a = false)
    (hb : isWhitespace b = false) (middle : Bytes) :
    Solid (a :: (middle ++ [b])) where
  front := ⟨a, _, rfl, ha⟩
  back := ⟨a :: middle, b, rfl, hb⟩

theorem append (hs : Solid s) (middle : Bytes) (ht : Solid t) :
    Solid (s ++ middle ++ t) := by
  obtain ⟨c, tail, rfl, hc⟩ := hs.front
  obtain ⟨init, d, rfl, hd⟩ := ht.back
  exact ⟨⟨c, _, rfl, hc⟩, ⟨c :: tail ++ middle ++ init, d, by simp, hd⟩⟩

end Solid

theorem solid_printQuoted (text : Bytes) : Solid (printQuoted text) :=
  .wrap rfl rfl text

theorem solid_printMember {key value : Bytes} (h : Solid value) :
    Solid (printMember key value) := by
  have happend := (solid_printQuoted key).append [colon] h
  rwa [List.append_assoc] at happend

theorem solid_printObject (members : List Bytes) :
    Solid (printObject members) :=
  .wrap rfl rfl _

theorem solid_digits {digits : Bytes} (h : Digits digits) : Solid digits where
  front := by
    obtain ⟨c, tail, hdigits, hc⟩ := h.exists_cons
    exact ⟨c, tail, hdigits, isDigit_not_whitespace hc⟩
  back := by
    obtain ⟨init, c, hdigits, hc⟩ := h.exists_concat
    exact ⟨init, c, hdigits, isDigit_not_whitespace hc⟩

theorem decimalInt_sign (n : Int) :
    ∃ sign, (sign = [minus] ∨ sign = []) ∧
      decimalInt n = sign ++ decimal n.natAbs := by
  unfold decimalInt
  split_ifs
  · exact ⟨[minus], .inl rfl, rfl⟩
  · exact ⟨[], .inr rfl, rfl⟩

theorem solid_scalar (value : Scalar) : Solid value.print := by
  cases value with
  | string text => exact solid_printQuoted text
  | number n =>
      obtain ⟨sign, hsign, hprint⟩ := decimalInt_sign n
      have hdigits := solid_digits (decimal_digits n.natAbs)
      rw [Scalar.print, hprint]
      rcases hsign with rfl | rfl
      · obtain ⟨init, c, hinit, hc⟩ := hdigits.back
        rw [hinit]
        exact .wrap rfl hc init
      · exact hdigits

theorem solid_separated {texts : List Bytes} (hne : texts ≠ [])
    (h : ∀ text ∈ texts, Solid text) : Solid (separated texts) := by
  induction texts with
  | nil => exact absurd rfl hne
  | cons text texts ih =>
      obtain ⟨htext, hrest⟩ := List.forall_mem_cons.mp h
      cases texts with
      | nil => exact htext
      | cons next texts =>
          have happend := htext.append [comma]
            (ih (List.cons_ne_nil _ _) hrest)
          rwa [List.append_assoc] at happend

theorem trimmed_separated {texts : List Bytes}
    (h : ∀ text ∈ texts, Solid text) :
    trimmed (separated texts) = separated texts := by
  cases texts with
  | nil => rfl
  | cons text texts =>
      exact (solid_separated (List.cons_ne_nil _ _) h).trimmed_eq

/-! Reading the members back, one after the other. -/

theorem units_of_plain {text : Bytes} (h : Plain text) : Units text := by
  induction text with
  | nil => exact .nil
  | cons c text ih =>
      obtain ⟨⟨hquote, hback, _⟩, htext⟩ := List.forall_mem_cons.mp h
      exact .plain hquote hback (ih htext)

theorem quoted_printQuoted {text : Bytes} (h : Plain text) (rest : Bytes) :
    Quoted (printQuoted text ++ rest) text rest :=
  ⟨[], fun _ hc => absurd hc List.not_mem_nil, units_of_plain h,
    by simp [printQuoted]⟩

/-- What can follow a member inside an object. -/
def Ends (rest : Bytes) : Prop := rest = [] ∨ ∃ more, rest = comma :: more

theorem Ends.not_digit {rest : Bytes} (h : Ends rest) :
    ∀ c ∈ rest.head?, isDigit c = false := by
  intro c hc
  rcases h with rfl | ⟨more, rfl⟩
  · contradiction
  · obtain rfl : comma = c := by simpa using hc
    rfl

/-- The text of a member, in an object it can be read back from. -/
structure Printed {M : Type} (Item : Bytes → Bytes → M → Bytes → Prop)
    (text : Bytes) (m : M) : Prop where
  spells : ∃ key value, Plain key ∧ Solid value ∧
    text = printMember key value ∧
    ∀ rest, Ends rest → Item key (value ++ rest) m rest

theorem Printed.solid {M : Type} {Item : Bytes → Bytes → M → Bytes → Prop}
    {text : Bytes} {m : M} (h : Printed Item text m) : Solid text := by
  obtain ⟨key, value, _, hsolid, rfl, _⟩ := h.spells
  exact solid_printMember hsolid

theorem memberEnd_comma (s : Bytes) : memberEnd (comma :: s) = trimmed s := by
  rw [memberEnd, trimStart_of_not s rfl]
  rfl

theorem passes_separated {M α : Type}
    {Item : Bytes → Bytes → M → Bytes → Prop} {print : α → Bytes}
    {spells : α → M} {members : List α}
    (h : ∀ m ∈ members, Printed Item (print m) (spells m)) :
    Passes Item (separated (members.map print)) (members.map spells) [] := by
  induction members with
  | nil => exact .here
  | cons m members ih =>
      obtain ⟨hm, hrest⟩ := List.forall_mem_cons.mp h
      obtain ⟨key, value, hkey, _, hprint, hitem⟩ := hm.spells
      have hreads (rest : Bytes) (hends : Ends rest)
          (hpasses : Passes Item (memberEnd rest) (members.map spells) []) :
          Passes Item (print m ++ rest) (spells m :: members.map spells)
            [] := by
        have hquoted := quoted_printQuoted hkey (colon :: value ++ rest)
        have hcolon : Colon (colon :: value ++ rest) (value ++ rest) :=
          ⟨[], fun _ hc => absurd hc List.not_mem_nil, rfl⟩
        refine .next ?_ hcolon (hitem rest hends) hpasses
        rw [hprint, printMember, List.append_assoc]
        exact hquoted
      cases members with
      | nil =>
          have hlast := hreads [] (.inl rfl) .here
          rwa [List.append_nil] at hlast
      | cons next members =>
          refine hreads _ (.inr ⟨_, rfl⟩) ?_
          rw [memberEnd_comma]
          have hsolid : ∀ text ∈ (next :: members).map print,
              Solid text := by
            intro text htext
            obtain ⟨other, hother, rfl⟩ := List.mem_map.mp htext
            exact (hrest other hother).solid
          have htrim := trimmed_separated hsolid
          rw [List.map_cons] at htrim
          rw [htrim]
          exact ih hrest

/-! Values. -/

theorem Kind.Takes.token {kind : Kind} {value : Scalar}
    (h : kind.Takes value) {rest : Bytes} (hends : Ends rest) :
    kind.Token (value.print ++ rest) value.text rest := by
  have hblank : Blank [] := fun _ hc => absurd hc List.not_mem_nil
  cases h with
  | string hplain => exact quoted_printQuoted hplain rest
  | @int lo hi n _ _ =>
      obtain ⟨sign, hsign, hprint⟩ := decimalInt_sign n
      exact ⟨[], sign, decimal n.natAbs, hblank, hsign, decimal_digits _,
        hprint, hends.not_digit, rfl⟩
  | @uint hi n _ =>
      have hprint : decimalInt n = decimal n := by
        rw [decimalInt, if_neg (by omega), Int.natAbs_natCast]
      refine ⟨[], hblank, ?_, hends.not_digit, rfl⟩
      rw [Scalar.text, hprint]
      exact decimal_digits n

theorem Kind.Takes.accepts {kind : Kind} {value : Scalar}
    (h : kind.Takes value) : kind.Accepts value.text := by
  cases h with
  | string _ => trivial
  | @int lo hi n hlo hhi =>
      change lo ≤ intOf (decimalInt n) ∧ intOf (decimalInt n) ≤ hi
      rw [intOf_decimalInt]
      exact ⟨hlo, hhi⟩
  | @uint hi n hle =>
      change natOf (decimalInt n) ≤ hi
      rwa [decimalInt, if_neg (by omega), Int.natAbs_natCast, natOf_decimal]

theorem Entry.Fits.printed {table : Table} {entry : Entry}
    (h : entry.Fits table) :
    Printed (FieldItem table) entry.print entry.literal := by
  obtain ⟨hplain, kind, hkind, htakes⟩ := h
  refine ⟨entry.key, entry.value.print, hplain, solid_scalar _, rfl, ?_⟩
  intro rest hends
  exact .intro hkind (htakes.token hends) htakes.accepts

/-! Sub-objects: without braces inside, they end at the first closing one. -/

theorem BraceFree.append {s t : Bytes} (hs : BraceFree s) (ht : BraceFree t) :
    BraceFree (s ++ t) := by
  intro c hc
  exact (List.mem_append.mp hc).elim (hs c) (ht c)

theorem BraceFree.cons {c : UInt8} {s : Bytes} (hl : c ≠ lbrace)
    (hr : c ≠ rbrace) (hs : BraceFree s) : BraceFree (c :: s) :=
  List.forall_mem_cons.mpr ⟨⟨hl, hr⟩, hs⟩

theorem braceFree_digits {digits : Bytes} (h : Digits digits) :
    BraceFree digits := by
  intro c hc
  have hdigit := h.all c hc
  constructor <;> rintro rfl <;> contradiction

theorem braceFree_printQuoted {text : Bytes} (h : Plain text) :
    BraceFree (printQuoted text) := by
  have htext : BraceFree text := fun c hc => (h c hc).2.2
  have hquote : BraceFree [quote] := by
    intro c hc
    rw [List.mem_singleton.mp hc]
    decide
  exact hquote.append (htext.append hquote)

theorem Kind.Takes.braceFree {kind : Kind} {value : Scalar}
    (h : kind.Takes value) : BraceFree value.print := by
  have hint (n : Int) : BraceFree (decimalInt n) := by
    obtain ⟨sign, hsign, hprint⟩ := decimalInt_sign n
    have hdigits := braceFree_digits (decimal_digits n.natAbs)
    rw [hprint]
    rcases hsign with rfl | rfl
    · exact hdigits.cons (by decide) (by decide)
    · exact hdigits
  cases h with
  | string hplain => exact braceFree_printQuoted hplain
  | int _ _ => exact hint _
  | uint _ => exact hint _

theorem Entry.Fits.braceFree {table : Table} {entry : Entry}
    (h : entry.Fits table) : BraceFree entry.print := by
  obtain ⟨hplain, kind, _, htakes⟩ := h
  exact (braceFree_printQuoted hplain).append
    (htakes.braceFree.cons (by decide) (by decide))

theorem braceFree_separated {texts : List Bytes}
    (h : ∀ text ∈ texts, BraceFree text) : BraceFree (separated texts) := by
  induction texts with
  | nil => exact fun _ hc => absurd hc List.not_mem_nil
  | cons text texts ih =>
      obtain ⟨htext, hrest⟩ := List.forall_mem_cons.mp h
      cases texts with
      | nil => exact htext
      | cons next texts =>
          exact htext.append ((ih hrest).cons (by decide) (by decide))

theorem braceSpan_rbrace (rest : Bytes) :
    braceSpan 1 (rbrace :: rest) = ([rbrace], rest) := by
  cases rest <;> rfl

theorem objectAt_printObject {members : List Bytes}
    (hfree : BraceFree (separated members))
    (hsolid : ∀ text ∈ members, Solid text) (rest : Bytes) :
    ObjectAt (printObject members ++ rest) (separated members) rest := by
  have hspan : braceSpan 1 (separated members ++ rbrace :: rest) =
      (separated members ++ [rbrace], rest) := by
    rw [braceSpan_braceFree hfree, braceSpan_rbrace]
  refine ⟨separated members ++ rbrace :: rest, separated members, rbrace,
    by simp [printObject], by rw [hspan], ?_, (trimmed_separated hsolid).symm⟩
  rw [hspan]
  exact (Solid.wrap rfl rfl _).trimmed_eq

theorem Element.Fits.printed {element : Element} (h : element.Fits) :
    Printed ApplyItem element.print element.member := by
  cases h with
  | @scalar entry kind hplain hkind htakes =>
      refine ⟨entry.key, entry.value.print, hplain, solid_scalar _, rfl, ?_⟩
      intro rest hends
      exact .literal hkind (htakes.token hends) htakes.accepts
  | @object key table entries hplain htable hentries =>
      refine ⟨key, printObject (entries.map Entry.print), hplain,
        solid_printObject _, rfl, ?_⟩
      intro rest _
      have hprinted : ∀ text ∈ entries.map Entry.print,
          Solid text ∧ BraceFree text := by
        intro text htext
        obtain ⟨entry, hentry, rfl⟩ := List.mem_map.mp htext
        exact ⟨(hentries entry hentry).printed.solid,
          (hentries entry hentry).braceFree⟩
      have hobject := objectAt_printObject
        (braceFree_separated fun text htext => (hprinted text htext).2)
        (fun text htext => (hprinted text htext).1) rest
      exact .object htable hobject
        (passes_separated fun entry hentry => (hentries entry hentry).printed)

/-- A printed document reads back as what it spells. -/
theorem reads_printDocument {elements : List Element}
    (h : ∀ element ∈ elements, element.Fits)
    (hshort : (printDocument elements).length ≤ 512) :
    Reads (printDocument elements) (elements.map Element.member) := by
  have hsolid : ∀ text ∈ elements.map Element.print, Solid text := by
    intro text htext
    obtain ⟨element, helement, rfl⟩ := List.mem_map.mp htext
    exact (h element helement).printed.solid
  exact ⟨_, ⟨hshort, _, (solid_printObject _).trimmed_eq,
    (trimmed_separated hsolid).symm⟩,
    passes_separated fun element helement => (h element helement).printed⟩

end HeidiKernel.Gov
