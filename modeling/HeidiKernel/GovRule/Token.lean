import HeidiKernel.GovRule.Values

namespace HeidiKernel.Gov

open HeidiKernel.Data

/-! Blanks around a text, and one byte after blanks. -/

theorem blank_nil : Blank [] := fun _ hc => absurd hc List.not_mem_nil

theorem Blank.append {a b : Bytes} (ha : Blank a) (hb : Blank b) :
    Blank (a ++ b) := by
  intro c hc
  exact (List.mem_append.mp hc).elim (ha c) (hb c)

theorem Blank.not_mem {blank : Bytes} (h : Blank blank) {c : UInt8}
    (hc : isWhitespace c = false) : c ∉ blank := by
  intro hmem
  rw [h c hmem] at hc
  contradiction

theorem exists_blank_end (s : Bytes) :
    ∃ blank, Blank blank ∧ s = trimEnd s ++ blank := by
  refine ⟨s.rtakeWhile isWhitespace, ?_, ?_⟩
  · intro c hc
    exact List.mem_rtakeWhile_imp hc
  · exact List.rdropWhile_append_rtakeWhile.symm

theorem exists_blanks (s : Bytes) :
    ∃ front back, Blank front ∧ Blank back ∧
      s = front ++ trimmed s ++ back := by
  obtain ⟨back, hback, hs⟩ := exists_blank_end s
  obtain ⟨front, hfront, htrim⟩ := exists_blank (trimEnd s)
  refine ⟨front, back, hfront, hback, ?_⟩
  rw [trimmed, ← htrim, ← hs]

theorem trimStart_head {s tail : Bytes} {c : UInt8}
    (h : trimStart s = c :: tail) : isWhitespace c = false := by
  have hnot := head?_dropWhile isWhitespace s
  rw [trimStart] at h
  rw [h] at hnot
  exact hnot c rfl

/-- Blanks, and then one particular byte. -/
def After (c : UInt8) (s rest : Bytes) : Prop :=
  ∃ blank, Blank blank ∧ s = blank ++ c :: rest

theorem trimStart_of_after {c : UInt8} (hc : isWhitespace c = false)
    {s rest : Bytes} (h : After c s rest) : trimStart s = c :: rest :=
  (trimStart_eq_cons_iff hc).mpr h

theorem After.unique {c d : UInt8} {s rest rest' : Bytes}
    (hc : isWhitespace c = false) (hd : isWhitespace d = false)
    (h : After c s rest) (h' : After d s rest') : c = d ∧ rest = rest' := by
  have heq := (trimStart_of_after hc h).symm.trans (trimStart_of_after hd h')
  simpa using heq

theorem not_after_nil {c : UInt8} {rest : Bytes} : ¬After c [] rest := by
  rintro ⟨blank, _, h⟩
  simp at h

theorem After.suffix {c : UInt8} {s rest : Bytes} (h : After c s rest) :
    c :: rest <:+ s := by
  obtain ⟨blank, _, rfl⟩ := h
  exact List.suffix_append _ _

theorem After.length_lt {c : UInt8} {s rest : Bytes} (h : After c s rest) :
    rest.length < s.length := by
  obtain ⟨blank, _, rfl⟩ := h
  simp only [List.length_append, List.length_cons]
  omega

theorem After.append {c : UInt8} {s rest : Bytes} (h : After c s rest)
    (t : Bytes) : After c (s ++ t) (rest ++ t) := by
  obtain ⟨blank, hblank, rfl⟩ := h
  exact ⟨blank, hblank, by simp⟩

theorem After.prepend {c : UInt8} {s rest blank : Bytes}
    (hblank : Blank blank) (h : After c s rest) :
    After c (blank ++ s) rest := by
  obtain ⟨blank', hblank', rfl⟩ := h
  exact ⟨blank ++ blank', hblank.append hblank', by simp⟩

theorem After.not_digit {c : UInt8} (hc : isDigit c = false)
    {s rest : Bytes} (h : After c s rest) :
    ∀ d ∈ s.head?, isDigit d = false := by
  obtain ⟨blank, hblank, rfl⟩ := h
  intro d hd
  cases blank with
  | nil =>
      obtain rfl : c = d := by simpa using hd
      exact hc
  | cons e blank =>
      obtain rfl : e = d := by simpa using hd
      have hspace := hblank e List.mem_cons_self
      cases hdigit : isDigit e with
      | false => rfl
      | true =>
          rw [isDigit_not_whitespace hdigit] at hspace
          contradiction

/-! A token leaves the same view, whoever looks for it. -/

theorem Quoted.unique {s key key' rest rest' : Bytes}
    (h : Quoted s key rest) (h' : Quoted s key' rest') :
    key = key' ∧ rest = rest' := by
  have heq := (parseKey_of_quoted h).symm.trans (parseKey_of_quoted h')
  simpa using heq

theorem quoted_of_parseKey {s key rest : Bytes}
    (h : parseKey s = .ok (some key, rest)) : Quoted s key rest := by
  obtain ⟨text, hquoted, heq⟩ := parseQuoted_scans.eq_some_iff.mp h
  rwa [← Option.some.inj (Except.ok.inj heq)]

theorem Colon.unique {s rest rest' : Bytes} (h : Colon s rest)
    (h' : Colon s rest') : rest = rest' := by
  have heq := (trimStart_of_after rfl h).symm.trans (trimStart_of_after rfl h')
  simpa using heq

theorem trimStart_of_digits {blank text : Bytes} (hblank : Blank blank)
    (h : Digits text) (rest : Bytes) :
    trimStart (blank ++ text ++ rest) = text ++ rest := by
  obtain ⟨c, tail, rfl, hc⟩ := h.exists_cons
  rw [List.append_assoc, trimStart_append hblank]
  exact trimStart_of_not _ (isDigit_not_whitespace hc)

section Digits

variable {a b rest rest' : Bytes}

theorem Digits.unique (ha : Digits a) (hb : Digits b)
    (hrest : ∀ c ∈ rest.head?, isDigit c = false)
    (hrest' : ∀ c ∈ rest'.head?, isDigit c = false)
    (h : a ++ rest = b ++ rest') : a = b ∧ rest = rest' := by
  exact span_unique ha.all hrest hb.all hrest' h

end Digits

theorem Unsigned.unique {s text text' rest rest' : Bytes}
    (h : Unsigned s text rest) (h' : Unsigned s text' rest') :
    text = text' ∧ rest = rest' := by
  obtain ⟨blank, hblank, hdigits, hrest, rfl⟩ := h
  obtain ⟨blank', hblank', hdigits', hrest', heq⟩ := h'
  have htrim := congrArg trimStart heq
  rw [trimStart_of_digits hblank hdigits,
    trimStart_of_digits hblank' hdigits'] at htrim
  exact hdigits.unique hdigits' hrest hrest' htrim

/-- A signed number is one digit string behind an optional minus. -/
theorem Signed.cases {s text rest : Bytes} (h : Signed s text rest) :
    (∃ digits, text = minus :: digits ∧ Digits digits ∧
        trimStart s = minus :: (digits ++ rest)) ∨
      (Digits text ∧ trimStart s = text ++ rest) := by
  obtain ⟨blank, sign, digits, hblank, hsign, hdigits, rfl, _, rfl⟩ := h
  rcases hsign with rfl | rfl
  · left
    refine ⟨digits, rfl, hdigits, ?_⟩
    rw [List.append_assoc, trimStart_append hblank]
    exact trimStart_of_not _ rfl
  · exact .inr ⟨hdigits, trimStart_of_digits hblank hdigits rest⟩

theorem Signed.not_digit {s text rest : Bytes} (h : Signed s text rest) :
    ∀ c ∈ rest.head?, isDigit c = false := by
  obtain ⟨_, _, _, _, _, _, _, hrest, _⟩ := h
  exact hrest

theorem Signed.unique {s text text' rest rest' : Bytes}
    (h : Signed s text rest) (h' : Signed s text' rest') :
    text = text' ∧ rest = rest' := by
  have hne {digits rest tail : Bytes} (hdigits : Digits digits) :
      digits ++ rest ≠ minus :: tail := by
    obtain ⟨c, front, rfl, hc⟩ := hdigits.exists_cons
    intro heq
    exact isDigit_ne_minus hc (List.cons.inj heq).1
  rcases h.cases with ⟨digits, rfl, hdigits, htrim⟩ | ⟨hdigits, htrim⟩ <;>
    rcases h'.cases with ⟨digits', rfl, hdigits', htrim'⟩ | ⟨hdigits', htrim'⟩
  · rw [htrim] at htrim'
    obtain ⟨rfl, rfl⟩ := hdigits.unique hdigits' h.not_digit h'.not_digit
      (List.cons.inj htrim').2
    exact ⟨rfl, rfl⟩
  · rw [htrim] at htrim'
    exact absurd htrim'.symm (hne hdigits')
  · rw [htrim] at htrim'
    exact absurd htrim' (hne hdigits)
  · rw [htrim] at htrim'
    exact hdigits.unique hdigits' h.not_digit h'.not_digit htrim'

theorem Kind.Token.unique {kind : Kind} {s text text' rest rest' : Bytes}
    (h : kind.Token s text rest) (h' : kind.Token s text' rest') :
    text = text' ∧ rest = rest' := by
  cases kind with
  | string => exact Quoted.unique h h'
  | int lo hi => exact Signed.unique h h'
  | uint hi => exact Unsigned.unique h h'

theorem Quoted.units {s key rest : Bytes} (h : Quoted s key rest) :
    Units key := by
  obtain ⟨_, _, hunits, _⟩ := h
  exact hunits

theorem Quoted.trimStart {s key rest : Bytes} (h : Quoted s key rest) :
    trimStart s = quote :: (key ++ quote :: rest) := by
  obtain ⟨blank, hblank, _, rfl⟩ := h
  rw [List.append_assoc, trimStart_append hblank]
  exact trimStart_of_not _ rfl

theorem not_quoted_of_after {c : UInt8} (hc : isWhitespace c = false)
    (hne : c ≠ quote) {s tail : Bytes} (h : After c s tail)
    {key rest : Bytes} : ¬Quoted s key rest := by
  intro hkey
  have heq := (trimStart_of_after hc h).symm.trans hkey.trimStart
  exact hne (List.cons.inj heq).1

theorem quoted_iff {s key rest : Bytes} :
    Quoted s key rest ↔
      Units key ∧ trimStart s = quote :: key ++ quote :: rest := by
  constructor
  · intro h
    exact ⟨h.units, h.trimStart⟩
  · intro h
    obtain ⟨hunits, htrim⟩ := h
    obtain ⟨blank, hblank, hs⟩ :=
      (trimStart_eq_cons_iff (c := quote) rfl).mp htrim
    exact ⟨blank, hblank, hunits, by rw [hs]; simp⟩

/-- The first quote that no unit covers is the only one that can close. -/
theorem Units.unique {key key' rest rest' : Bytes} (h : Units key)
    (h' : Units key')
    (heq : quote :: key ++ quote :: rest = quote :: key' ++ quote :: rest') :
    key = key' ∧ rest = rest' := by
  have hquoted : Quoted (quote :: key ++ quote :: rest) key rest :=
    ⟨[], blank_nil, h, rfl⟩
  have hquoted' : Quoted (quote :: key ++ quote :: rest) key' rest' :=
    ⟨[], blank_nil, h', heq⟩
  exact hquoted.unique hquoted'

/-- Values and keys are delimited alike: by the first closing quote. -/
theorem parseStringValue_closes (s : Bytes) :
    parseStringValue s = parseKey s ∧
      (∀ text rest, parseStringValue s = .ok (some text, rest) ↔
        Units text ∧ trimStart s = quote :: text ++ quote :: rest) ∧
      ((¬∃ text rest,
          Units text ∧ trimStart s = quote :: text ++ quote :: rest) →
        ∃ left, parseStringValue s = .ok (none, left)) ∧
      ∀ text rest text' rest', Units text → Units text' →
        trimStart s = quote :: text ++ quote :: rest →
        trimStart s = quote :: text' ++ quote :: rest' →
          text = text' ∧ rest = rest' := by
  refine ⟨rfl, ?_, ?_, ?_⟩
  · intro text rest
    rw [← quoted_iff]
    constructor
    · intro h
      exact quoted_of_parseKey h
    · intro h
      exact parseKey_of_quoted h
  · intro hnone
    apply parseQuoted_scans.rejects
    intro text rest hquoted
    exact hnone ⟨text, rest, quoted_iff.mp hquoted⟩
  · intro text rest text' rest' hunits hunits' htrim htrim'
    exact hunits.unique hunits' (htrim.symm.trans htrim')

/-! A token in a longer view. -/

theorem Quoted.append {s key rest : Bytes} (h : Quoted s key rest)
    (t : Bytes) : Quoted (s ++ t) key (rest ++ t) := by
  obtain ⟨blank, hblank, hunits, rfl⟩ := h
  exact ⟨blank, hblank, hunits, by simp⟩

theorem not_digit_append {rest t : Bytes}
    (hrest : ∀ c ∈ rest.head?, isDigit c = false)
    (ht : rest = [] → ∀ c ∈ t.head?, isDigit c = false) :
    ∀ c ∈ (rest ++ t).head?, isDigit c = false := by
  cases rest with
  | nil => exact ht rfl
  | cons c rest => exact hrest

theorem Kind.Token.append {kind : Kind} {s text rest : Bytes}
    (h : kind.Token s text rest) {t : Bytes}
    (ht : rest = [] → ∀ c ∈ t.head?, isDigit c = false) :
    kind.Token (s ++ t) text (rest ++ t) := by
  cases kind with
  | string => exact Quoted.append h t
  | int lo hi =>
      obtain ⟨blank, sign, digits, hblank, hsign, hdigits, htext, hrest,
        rfl⟩ := h
      exact ⟨blank, sign, digits, hblank, hsign, hdigits, htext,
        not_digit_append hrest ht, by simp⟩
  | uint hi =>
      obtain ⟨blank, hblank, hdigits, hrest, rfl⟩ := h
      exact ⟨blank, hblank, hdigits, not_digit_append hrest ht, by simp⟩

theorem Digits.append_takeWhile {digits : Bytes} (h : Digits digits)
    (t : Bytes) : Digits (digits ++ t.takeWhile isDigit) where
  nonempty := by simp [h.nonempty]
  all := by
    intro c hc
    rcases List.mem_append.mp hc with hfront | hback
    · exact h.all c hfront
    · exact List.mem_takeWhile_imp hback

/-- A number at the end of a view goes on in a longer one. -/
theorem Kind.Token.extend {kind : Kind} (hkind : kind ≠ .string)
    {s text : Bytes} (h : kind.Token s text []) (t : Bytes) :
    kind.Token (s ++ t) (text ++ t.takeWhile isDigit)
      (t.dropWhile isDigit) := by
  have hsplit (front : Bytes) : front ++ [] ++ t =
      front ++ t.takeWhile isDigit ++ t.dropWhile isDigit := by
    rw [List.append_nil, List.append_assoc, List.takeWhile_append_dropWhile]
  cases kind with
  | string => exact absurd rfl hkind
  | int lo hi =>
      obtain ⟨blank, sign, digits, hblank, hsign, hdigits, rfl, _, rfl⟩ := h
      refine ⟨blank, sign, digits ++ t.takeWhile isDigit, hblank, hsign,
        hdigits.append_takeWhile t, by simp, head?_dropWhile isDigit t, ?_⟩
      rw [hsplit, List.append_assoc blank]
  | uint hi =>
      obtain ⟨blank, hblank, hdigits, _, rfl⟩ := h
      refine ⟨blank, hblank, hdigits.append_takeWhile t,
        head?_dropWhile isDigit t, ?_⟩
      rw [hsplit, List.append_assoc blank]

theorem Quoted.prepend {s key rest blank : Bytes} (hblank : Blank blank)
    (h : Quoted s key rest) : Quoted (blank ++ s) key rest := by
  obtain ⟨blank', hblank', hunits, rfl⟩ := h
  exact ⟨blank ++ blank', hblank.append hblank', hunits, by simp⟩

theorem Quoted.suffix {s key rest : Bytes} (h : Quoted s key rest) :
    rest <:+ s := by
  obtain ⟨blank, _, _, rfl⟩ := h
  exact (List.suffix_cons _ _).trans (List.suffix_append _ _)

theorem Kind.Token.suffix {kind : Kind} {s text rest : Bytes}
    (h : kind.Token s text rest) : rest <:+ s := by
  cases kind with
  | string => exact Quoted.suffix h
  | int lo hi =>
      obtain ⟨_, _, _, _, _, _, _, _, rfl⟩ := h
      exact List.suffix_append _ _
  | uint hi =>
      obtain ⟨_, _, _, _, rfl⟩ := h
      exact List.suffix_append _ _

theorem suffix_of_append {c : UInt8} {front s rest : Bytes}
    (hc : c ∉ front) (h : c :: rest <:+ front ++ s) : c :: rest <:+ s := by
  induction front with
  | nil => exact h
  | cons d front ih =>
      rw [List.mem_cons, not_or] at hc
      rcases List.suffix_cons_iff.mp h with heq | hsuffix
      · exact absurd (List.cons.inj heq).1 hc.1
      · exact ih hc.2 hsuffix

end HeidiKernel.Gov
