import HeidiKernel.Data.Lockstep
import HeidiKernel.GovRule.Lexer
import HeidiKernel.GovRule.Print
import HeidiKernel.GovRule.Tidy

namespace HeidiKernel.Gov

open HeidiKernel.Data

/-! Two texts with the same tokens lose the same byte at their ends. -/

def Token.print : Token → Bytes
  | string text => quote :: (text ++ [quote])
  | number text => text
  | byte c => [c]
  | unclosed text => quote :: text

/-- What comes behind a token: the rest, but for the blanks at the end of an
unclosed string. -/
def Leaves (t : Token) (back rest : Bytes) : Prop :=
  match t with
  | .unclosed _ => Blank back ∧ rest = []
  | .string _ | .number _ | .byte _ => back = rest

theorem Next.print {s rest : Bytes} {t : Token} (h : Next s t rest) :
    ∃ blank back, Blank blank ∧ s = blank ++ (t.print ++ back) ∧
      Leaves t back rest := by
  cases h with
  | string hquoted =>
      obtain ⟨blank, hblank, _, rfl⟩ := hquoted
      exact ⟨blank, rest, hblank, by simp [Token.print], rfl⟩
  | number hsigned =>
      obtain ⟨blank, _, _, hblank, _, _, _, _, rfl⟩ := hsigned
      exact ⟨blank, rest, hblank, List.append_assoc _ _ _, rfl⟩
  | byte hafter _ =>
      obtain ⟨blank, hblank, rfl⟩ := hafter
      exact ⟨blank, rest, hblank, rfl, rfl⟩
  | @unclosed text hafter _ =>
      obtain ⟨blank, hblank, rfl⟩ := hafter
      obtain ⟨back, hback, htext⟩ := exists_blank_end text
      refine ⟨blank, back, hblank, ?_, hback, rfl⟩
      rw [Token.print, List.cons_append, ← htext]

theorem Next.print_ne_nil {s rest : Bytes} {t : Token} (h : Next s t rest) :
    t.print ≠ [] := by
  cases h with
  | number hsigned =>
      obtain ⟨_, sign, digits, _, _, hdigits, rfl, _, _⟩ := hsigned
      simp [Token.print, hdigits.nonempty]
  | string _ | byte _ _ | unclosed _ _ => exact List.cons_ne_nil _ _

theorem Leaves.closed {t : Token} {back rest : Bytes} (h : Leaves t back rest)
    (ht : ∀ text, t ≠ .unclosed text) : back = rest := by
  cases t with
  | unclosed text => exact absurd rfl (ht text)
  | string _ | number _ | byte _ => exact h

theorem Leaves.blank {t : Token} {back rest : Bytes} (h : Leaves t back rest)
    (hrest : Blank rest) : Blank back := by
  cases t with
  | unclosed text => exact h.1
  | string _ | number _ | byte _ =>
      rw [show back = rest from h]
      exact hrest

/-- A text that ends with its last token and no blank. -/
theorem Next.last_token {s rest : Bytes} {t : Token} {last : UInt8}
    (h : Next (s ++ [last]) t rest) (hrest : tokens rest = [])
    (hlast : isWhitespace last = false) :
    ∃ blank front, Blank blank ∧ t.print = front ++ [last] ∧
      s = blank ++ front := by
  obtain ⟨blank, back, hblank, hs, hleaves⟩ := h.print
  have hback := hleaves.blank (tokens_eq_nil_iff.mp hrest)
  rcases List.eq_nil_or_concat back with rfl | ⟨init, d, rfl⟩
  · rw [List.append_nil] at hs
    rcases List.eq_nil_or_concat t.print with hnil | ⟨front, d, hfront⟩
    · exact absurd hnil h.print_ne_nil
    · rw [List.concat_eq_append] at hfront
      rw [hfront, ← List.append_assoc] at hs
      obtain ⟨rfl, hd⟩ := List.append_inj' hs rfl
      obtain rfl := List.singleton_inj.mp hd
      exact ⟨blank, front, hblank, hfront, rfl⟩
  · rw [List.concat_eq_append] at hback hs
    rw [← List.append_assoc, ← List.append_assoc] at hs
    obtain ⟨_, hd⟩ := List.append_inj' hs rfl
    obtain rfl := List.singleton_inj.mp hd
    rw [hback last (by simp)] at hlast
    contradiction

theorem Next.closed {s rest : Bytes} {t : Token} (h : Next s t rest)
    (hrest : tokens rest ≠ []) : ∀ text, t ≠ .unclosed text := by
  rintro text rfl
  cases h with
  | unclosed => exact hrest (tokens_eq_nil_iff.mpr blank_nil)

/-- A text that does not end with its first token. -/
theorem Next.init {s rest : Bytes} {t : Token} {last : UInt8}
    (h : Next (s ++ [last]) t rest) (hrest : tokens rest ≠ []) :
    ∃ front, rest = front ++ [last] ∧ Next s t front := by
  obtain ⟨init, c, _, hs, hfront⟩ := h.split (h.closed hrest)
  rcases List.eq_nil_or_concat rest with rfl | ⟨front, d, rfl⟩
  · exact absurd (tokens_eq_nil_iff.mpr blank_nil) hrest
  · rw [List.concat_eq_append] at hs ⊢
    have hs' : s ++ [last] = init ++ c :: front ++ [d] := by simpa using hs
    obtain ⟨rfl, hd⟩ := List.append_inj' hs' rfl
    obtain rfl := List.singleton_inj.mp hd
    refine ⟨front, rfl, hfront front ?_⟩
    rw [List.concat_eq_append]
    exact List.prefix_append _ _

theorem alike_init {s s' : Bytes} {last last' : UInt8}
    (hlast : isWhitespace last = false) (hlast' : isWhitespace last' = false)
    (h : tokens (s ++ [last]) = tokens (s' ++ [last'])) :
    last = last' ∧ tokens s = tokens s' := by
  have hsolid {s : Bytes} {c : UInt8} (hc : isWhitespace c = false) :
      tokens (s ++ [c]) ≠ [] := by
    intro hnil
    rw [tokens_eq_nil_iff.mp hnil c (by simp)] at hc
    contradiction
  induction hts : tokens (s ++ [last]) generalizing s s' with
  | nil => exact absurd hts (hsolid hlast)
  | cons t ts ih =>
      obtain ⟨rest, hread, hrest⟩ := exists_next hts
      obtain ⟨rest', hread', hrest'⟩ := exists_next (h.symm.trans hts)
      cases ts with
      | nil =>
          obtain ⟨blank, front, hblank, hfront, rfl⟩ :=
            hread.last_token hrest hlast
          obtain ⟨blank', front', hblank', hfront', rfl⟩ :=
            hread'.last_token hrest' hlast'
          obtain ⟨rfl, hd⟩ := List.append_inj' (hfront.symm.trans hfront') rfl
          rw [tokens_append hblank, tokens_append hblank']
          exact ⟨List.singleton_inj.mp hd, rfl⟩
      | cons next ts =>
          obtain ⟨front, rfl, hfront⟩ := hread.init (by simp [hrest])
          obtain ⟨front', rfl, hfront'⟩ := hread'.init (by simp [hrest'])
          obtain ⟨hsame, htokens⟩ := ih (hrest.trans hrest'.symm) hrest
          rw [tokens_of_next hfront, tokens_of_next hfront', htokens]
          exact ⟨hsame, rfl⟩

/-! The brace matcher cuts two texts with the same tokens at the same place. -/

/-- The span of a text either ends in it, or goes on from another depth. -/
theorem braceSpan_split (text : Bytes) (depth : Nat) :
    (∃ front back, text = front ++ rbrace :: back ∧ ∀ rest,
      braceSpan (depth + 1) (text ++ rest) =
        (front ++ [rbrace], back ++ rest)) ∨
      ∃ depth', ∀ rest, braceSpan (depth + 1) (text ++ rest) =
        (text ++ (braceSpan (depth' + 1) rest).1,
          (braceSpan (depth' + 1) rest).2) := by
  induction text generalizing depth with
  | nil => exact .inr ⟨depth, fun _ => rfl⟩
  | cons c text ih =>
      have hgoes (next : Nat)
          (hnext : ∀ rest, braceSpan (depth + 1) (c :: text ++ rest) =
            (c :: (braceSpan (next + 1) (text ++ rest)).1,
              (braceSpan (next + 1) (text ++ rest)).2)) :
          (∃ front back, c :: text = front ++ rbrace :: back ∧ ∀ rest,
            braceSpan (depth + 1) (c :: text ++ rest) =
              (front ++ [rbrace], back ++ rest)) ∨
            ∃ depth', ∀ rest, braceSpan (depth + 1) (c :: text ++ rest) =
              (c :: text ++ (braceSpan (depth' + 1) rest).1,
                (braceSpan (depth' + 1) rest).2) := by
        rcases ih next with ⟨front, back, htext, hspan⟩ | ⟨depth', hspan⟩
        · refine .inl ⟨c :: front, back, by rw [htext]; rfl, ?_⟩
          intro rest
          rw [hnext, hspan]
          rfl
        · refine .inr ⟨depth', ?_⟩
          intro rest
          rw [hnext, hspan]
          rfl
      by_cases hl : c = lbrace
      · exact hgoes (depth + 1) fun rest => by simp [braceSpan, hl]
      · by_cases hr : c = rbrace
        · cases depth with
          | zero =>
              refine .inl ⟨[], text, by rw [hr]; rfl, fun rest => ?_⟩
              rw [hr, List.cons_append]
              exact braceSpan_rbrace _
          | succ depth =>
              refine hgoes depth fun rest => ?_
              simp [braceSpan, hr, show rbrace ≠ lbrace by decide]
        · exact hgoes depth fun rest => by simp [braceSpan, hl, hr]

/-- A span that ends inside a string. -/
def Torn (span : Bytes) : Prop :=
  ∃ front text, span = front ++ [rbrace] ∧ .unclosed text ∈ tokens front

theorem BraceFree.of_blank {blank : Bytes} (h : Blank blank) :
    BraceFree blank := by
  intro c hc
  have hspace := h c hc
  constructor <;> rintro rfl <;> contradiction

/-- The text of a token holds no string that ends before the token does. -/
theorem Next.quoted_print {s rest : Bytes} {t : Token} (h : Next s t rest)
    {key left : Bytes} (hkey : Quoted t.print key left) : left = [] := by
  have hhead := hkey.trimStart
  have hnever {c : UInt8} {tail : Bytes} (hc : isWhitespace c = false)
      (hquote : c ≠ quote) (hprint : t.print = c :: tail) : left = [] := by
    rw [hprint, trimStart_of_not tail hc] at hhead
    exact absurd (List.cons.inj hhead).1 hquote
  cases h with
  | @string text _ hquoted =>
      have hself : Quoted (Token.string text).print text [] :=
        ⟨[], blank_nil, hquoted.units, rfl⟩
      exact (hkey.unique hself).2
  | number hsigned =>
      rcases hsigned.cases with ⟨digits, rfl, _, _⟩ | ⟨hdigits, _⟩
      · exact hnever (by decide) (by decide) rfl
      · obtain ⟨c, tail, rfl, hc⟩ := hdigits.exists_cons
        refine hnever (isDigit_not_whitespace hc) ?_ rfl
        rintro rfl
        contradiction
  | byte _ hsingle => exact hnever hsingle.solid hsingle.quote rfl
  | @unclosed text hafter hnone =>
      obtain ⟨blank, hblank, rfl⟩ := hafter
      obtain ⟨back, _, htext⟩ := exists_blank_end text
      have hlonger := (hkey.append back).prepend hblank
      rw [Token.print, List.cons_append, ← htext] at hlonger
      exact absurd hlonger (hnone _ _)

theorem torn_of_front {s rest front back : Bytes} {t : Token}
    (h : Next s t rest) (hprint : t.print = quote :: front ++ rbrace :: back)
    {blank : Bytes} (hblank : Blank blank) :
    Torn (blank ++ (quote :: front ++ [rbrace])) := by
  have hnone : ∀ key left, ¬Quoted (quote :: front) key left := by
    intro key left hkey
    have hlonger := hkey.append (rbrace :: back)
    rw [← hprint] at hlonger
    simpa using h.quoted_print hlonger
  have hopen : Next (quote :: front) (.unclosed (trimEnd front)) [] :=
    .unclosed ⟨[], blank_nil, rfl⟩ hnone
  refine ⟨blank ++ quote :: front, trimEnd front, by simp, ?_⟩
  rw [tokens_append hblank, tokens_of_next hopen]
  exact List.mem_cons_self

theorem Signed.braceFree {s text rest : Bytes} (h : Signed s text rest) :
    BraceFree text := by
  rcases h.cases with ⟨digits, rfl, hdigits, _⟩ | ⟨hdigits, _⟩
  · exact (braceFree_digits hdigits).cons (by decide) (by decide)
  · exact braceFree_digits hdigits

/-- A token that a span ends in. -/
theorem alike_inside {s rest rest' : Bytes} {t : Token}
    (h : Next s t rest) (htail : tokens rest = tokens rest')
    {blank blank' back back' front after : Bytes} (hblank : Blank blank)
    (hblank' : Blank blank') (hback : Leaves t back rest)
    (hback' : Leaves t back' rest')
    (hprint : t.print = front ++ rbrace :: after) :
    tokens (blank ++ (front ++ [rbrace])) =
        tokens (blank' ++ (front ++ [rbrace])) ∧
      (tokens (after ++ back) = tokens (after ++ back') ∨
        Torn (blank ++ (front ++ [rbrace])) ∧
          Torn (blank' ++ (front ++ [rbrace]))) := by
  refine ⟨by rw [tokens_append hblank, tokens_append hblank'], ?_⟩
  have htorn {text : Bytes} (hquote : t.print = quote :: text) :
      Torn (blank ++ (front ++ [rbrace])) ∧
        Torn (blank' ++ (front ++ [rbrace])) := by
    cases front with
    | nil =>
        rw [hquote, List.nil_append] at hprint
        exact absurd (List.cons.inj hprint).1 (by decide)
    | cons c front =>
        obtain rfl : quote = c :=
          (List.cons.inj (hquote.symm.trans hprint)).1
        exact ⟨torn_of_front h hprint hblank, torn_of_front h hprint hblank'⟩
  cases t with
  | string text => exact .inr (htorn rfl)
  | unclosed text => exact .inr (htorn rfl)
  | byte c =>
      left
      have hlength := congrArg List.length hprint
      obtain rfl : after = [] := by
        rw [← List.length_eq_zero_iff]
        simp [Token.print] at hlength
        omega
      rw [show back = rest from hback, show back' = rest' from hback']
      exact htail
  | number text =>
      cases h with
      | number hsigned =>
          have hmem : rbrace ∈ text := by
            rw [show text = front ++ rbrace :: after from hprint]
            simp
          exact absurd rfl (hsigned.braceFree rbrace hmem).2

/-- A closed token is the same token before any front of the rest. -/
theorem Next.front {s rest : Bytes} {t : Token} (h : Next s t rest)
    (ht : ∀ text, t ≠ .unclosed text) {blank : Bytes}
    (hs : s = blank ++ (t.print ++ rest)) {front : Bytes}
    (hfront : front <+: rest) : Next (blank ++ (t.print ++ front)) t front := by
  obtain ⟨init, c, _, hinit, hreads⟩ := h.split ht
  have hsame : blank ++ t.print = init ++ [c] := by
    refine (List.append_left_inj rest).mp ?_
    rw [List.append_assoc, ← hs, hinit]
    simp
  rw [← List.append_assoc, hsame, List.append_assoc]
  exact hreads front hfront

theorem braceSpan_prefix (depth : Nat) (s : Bytes) :
    (braceSpan depth s).1 <+: s :=
  ⟨_, braceSpan_append depth s⟩

theorem braceSpan_blank {blank : Bytes} (h : Blank blank) (depth : Nat) :
    braceSpan (depth + 1) blank = (blank, []) := by
  have hspan := braceSpan_braceFree (.of_blank h) depth []
  rw [List.append_nil] at hspan
  rw [hspan]
  simp [braceSpan]

def SameSpans (spans spans' : Bytes × Bytes) : Prop :=
  tokens spans.1 = tokens spans'.1 ∧
    (tokens spans.2 = tokens spans'.2 ∨ Torn spans.1 ∧ Torn spans'.1)

theorem Torn.after {s rest span : Bytes} {t : Token} (h : Next s t rest)
    (ht : ∀ text, t ≠ .unclosed text) {blank : Bytes}
    (hs : s = blank ++ (t.print ++ rest)) (hspan : span <+: rest)
    (htorn : Torn span) : Torn (blank ++ (t.print ++ span)) := by
  obtain ⟨front, text, rfl, hmem⟩ := htorn
  refine ⟨blank ++ (t.print ++ front), text, by simp, ?_⟩
  have hfront := (List.prefix_append front [rbrace]).trans hspan
  rw [tokens_of_next (h.front ht hs hfront)]
  exact List.mem_cons_of_mem _ hmem

theorem braceSpan_alike {s s' : Bytes} (depth : Nat)
    (h : tokens s = tokens s') :
    SameSpans (braceSpan (depth + 1) s) (braceSpan (depth + 1) s') := by
  induction hts : tokens s generalizing depth s s' with
  | nil =>
      rw [braceSpan_blank (tokens_eq_nil_iff.mp hts),
        braceSpan_blank (tokens_eq_nil_iff.mp (h.symm.trans hts))]
      exact ⟨h, .inl rfl⟩
  | cons t ts ih =>
      obtain ⟨rest, hread, hrest⟩ := exists_next hts
      obtain ⟨rest', hread', hrest'⟩ := exists_next (h.symm.trans hts)
      obtain ⟨blank, back, hblank, hs, hback⟩ := hread.print
      obtain ⟨blank', back', hblank', hs', hback'⟩ := hread'.print
      rw [hs, hs', braceSpan_braceFree (.of_blank hblank),
        braceSpan_braceFree (.of_blank hblank')]
      rcases braceSpan_split t.print depth with
        ⟨front, after, hprint, hspan⟩ | ⟨depth', hspan⟩
      · rw [hspan, hspan]
        exact alike_inside hread (hrest.trans hrest'.symm) hblank hblank'
          hback hback' hprint
      · rw [hspan, hspan]
        by_cases hopen : ∃ text, t = .unclosed text
        · obtain ⟨text, rfl⟩ := hopen
          rw [braceSpan_blank hback.1, braceSpan_blank hback'.1, ← hs, ← hs']
          exact ⟨h, .inl rfl⟩
        · have hclosed : ∀ text, t ≠ .unclosed text :=
            fun text htext => hopen ⟨text, htext⟩
          obtain rfl := hback.closed hclosed
          obtain rfl := hback'.closed hclosed
          obtain ⟨hspans, hafter⟩ := ih depth' (hrest.trans hrest'.symm) hrest
          have hprefix := braceSpan_prefix (depth' + 1) back
          have hprefix' := braceSpan_prefix (depth' + 1) back'
          refine ⟨?_, hafter.imp id fun htorn => ⟨?_, ?_⟩⟩
          · rw [tokens_of_next (hread.front hclosed hs hprefix),
              tokens_of_next (hread'.front hclosed hs' hprefix'), hspans]
          · exact htorn.1.after hread hclosed hs hprefix
          · exact htorn.2.after hread' hclosed hs' hprefix'

/-! Two views with the same tokens, either of which may only be blank when it
is empty. -/

structure SameView (s s' : Bytes) : Prop where
  tokens : tokens s = tokens s'
  empty : s = [] ↔ s' = []

theorem sameView_trimmed {s s' : Bytes} (h : tokens s = tokens s') :
    SameView (trimmed s) (trimmed s') where
  tokens := by rw [tokens_trimmed, tokens_trimmed, h]
  empty := by
    rw [trimmed_eq_nil_iff, trimmed_eq_nil_iff, ← tokens_eq_nil_iff, h,
      tokens_eq_nil_iff]

theorem memberEnd_of_comma {s rest : Bytes} (h : After comma s rest) :
    memberEnd s = trimmed rest := by
  rw [memberEnd, trimStart_of_after (by decide) h]
  exact if_pos rfl

theorem memberEnd_of_not {s : Bytes} (h : ∀ rest, ¬After comma s rest) :
    memberEnd s = trimStart s := by
  unfold memberEnd
  cases htrim : trimStart s with
  | nil => rfl
  | cons c rest =>
      refine if_neg ?_
      rintro rfl
      exact h rest ((trimStart_eq_cons_iff (by decide)).mp htrim)

theorem sameView_memberEnd {s s' : Bytes} (h : tokens s = tokens s') :
    SameView (memberEnd s) (memberEnd s') := by
  by_cases hcomma : ∃ rest, After comma s rest
  · obtain ⟨rest, hcomma⟩ := hcomma
    obtain ⟨rest', hcomma', hrest⟩ := hcomma.alike (by decide) h
    rw [memberEnd_of_comma hcomma, memberEnd_of_comma hcomma']
    exact sameView_trimmed hrest
  · have hcomma' : ∀ rest, ¬After comma s' rest := by
      intro rest hrest
      obtain ⟨rest', hrest', _⟩ := hrest.alike (by decide) h.symm
      exact hcomma ⟨rest', hrest'⟩
    rw [memberEnd_of_not fun rest hrest => hcomma ⟨rest, hrest⟩,
      memberEnd_of_not hcomma']
    refine ⟨by rw [tokens_trimStart, tokens_trimStart, h], ?_⟩
    rw [trimStart_eq_nil_iff, trimStart_eq_nil_iff, ← tokens_eq_nil_iff, h,
      tokens_eq_nil_iff]

/-! The members of an object with a string that nothing closes. -/

def Unclosed (s : Bytes) : Prop := ∃ text, .unclosed text ∈ tokens s

theorem Unclosed.next {s rest : Bytes} {t : Token} (h : Unclosed s)
    (hread : Next s t rest) (ht : ∀ text, t ≠ .unclosed text) :
    Unclosed rest := by
  obtain ⟨text, hmem⟩ := h
  rw [tokens_of_next hread, List.mem_cons] at hmem
  exact ⟨text, hmem.resolve_left fun heq => ht text heq.symm⟩

theorem Unclosed.after {s rest : Bytes} {c : UInt8} (h : Unclosed s)
    (hc : isMark c = true) (hafter : After c s rest) : Unclosed rest :=
  h.next (.byte hafter (single_of_mark hc rest))
    (by intro text ht; contradiction)

theorem Unclosed.memberEnd {s : Bytes} (h : Unclosed s) :
    Unclosed (memberEnd s) := by
  by_cases hcomma : ∃ rest, After comma s rest
  · obtain ⟨rest, hcomma⟩ := hcomma
    rw [memberEnd_of_comma hcomma, Unclosed, tokens_trimmed]
    exact h.after (by decide) hcomma
  · rw [memberEnd_of_not fun rest hrest => hcomma ⟨rest, hrest⟩, Unclosed,
      tokens_trimStart]
    exact h

theorem Unclosed.token {kind : Kind} {s text rest : Bytes} (h : Unclosed s)
    (htoken : kind.Token s text rest) : Unclosed rest := by
  cases kind with
  | string =>
      exact h.next (.string htoken) (by intro text ht; contradiction)
  | int lo hi =>
      exact h.next (.number htoken) (by intro text ht; contradiction)
  | uint hi =>
      exact h.next (.number (Unsigned.signed htoken))
        (by intro text ht; contradiction)

theorem Unclosed.left {table : Table} {v left : Bytes} {ms : List Literal}
    (h : Unclosed v) (hpasses : Passes (FieldItem table) v ms left) :
    Unclosed left := by
  induction hpasses with
  | here => exact h
  | next hkey hcolon hitem _ ih =>
      have hafter := (@Unclosed.token .string _ _ _ h hkey).after
        (show isMark colon = true by decide) hcolon
      obtain ⟨_, htoken, _⟩ := hitem
      exact ih (hafter.token htoken).memberEnd

/-! The sub-objects of two texts with the same tokens. -/

structure SameSlices (a b : Bytes × Bytes) : Prop where
  body : SameView a.1 b.1
  rest : tokens a.2 = tokens b.2 ∨ Unclosed a.1

theorem exists_last {s : Bytes} (h : trimEnd s ≠ []) :
    ∃ inner last, trimEnd s = inner ++ [last] ∧
      isWhitespace last = false := by
  refine ⟨_, _, (List.dropLast_append_getLast h).symm, ?_⟩
  exact Bool.not_eq_true _ ▸ List.rdropWhile_last_not isWhitespace s h

theorem sliceObject_alike {inside inside' : Bytes}
    (h : tokens inside = tokens inside') :
    Alike SameSlices (sliceObject (lbrace :: inside))
      (sliceObject (lbrace :: inside')) := by
  obtain ⟨hspan, hrest⟩ := braceSpan_alike 0 h
  rw [sliceObject_of_inside, sliceObject_of_inside]
  have hempty : trimEnd (braceSpan 1 inside).1 = [] ↔
      trimEnd (braceSpan 1 inside').1 = [] := by
    rw [trimEnd_eq_nil_iff, trimEnd_eq_nil_iff, ← tokens_eq_nil_iff, hspan,
      tokens_eq_nil_iff]
  by_cases hnil : trimEnd (braceSpan 1 inside).1 = []
  · rw [hnil, hempty.mp hnil]
    exact .error _
  · obtain ⟨inner, last, hend, hlast⟩ := exists_last hnil
    obtain ⟨inner', last', hend', hlast'⟩ :=
      exists_last (mt hempty.mpr hnil)
    have hsame : tokens (inner ++ [last]) = tokens (inner' ++ [last']) := by
      rw [← hend, ← hend', tokens_trimEnd, tokens_trimEnd]
      exact hspan
    obtain ⟨_, hinner⟩ := alike_init hlast hlast' hsame
    rw [hend, hend', View.removeSuffix_one_concat,
      View.removeSuffix_one_concat]
    refine .ok ⟨sameView_trimmed hinner, ?_⟩
    refine hrest.imp_right fun htorn => ?_
    obtain ⟨front, text, hfront, hmem⟩ := htorn.1
    rw [hfront, trimEnd_append_cons (by decide)] at hend
    obtain ⟨rfl, _⟩ := List.append_inj' hend rfl
    exact ⟨text, by rw [tokens_trimmed]; exact hmem⟩

end HeidiKernel.Gov
