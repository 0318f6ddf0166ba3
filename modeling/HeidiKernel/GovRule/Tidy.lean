import HeidiKernel.GovRule.WellFormed

namespace HeidiKernel.Gov

/-! The readings in which a comma or the end of the object follows every value,
and every sub-object loses a brace. -/

/-- Nothing but blanks is left, or a comma comes next. -/
def Separated (rest : Bytes) : Prop :=
  ∀ c ∈ (trimStart rest).head?, c = comma

structure ClosedAt (s body rest : Bytes) : Prop where
  slice : ∃ inside inner,
    s = lbrace :: inside ∧ rest = (braceSpan 1 inside).2 ∧
    trimmed (lbrace :: (braceSpan 1 inside).1) =
      lbrace :: (inner ++ [rbrace]) ∧
    body = trimmed inner

def Tidy {M : Type} (Item : Bytes → Bytes → M → Bytes → Prop)
    (key s : Bytes) (m : M) (rest : Bytes) : Prop :=
  Item key s m rest ∧ Separated rest

inductive ClosedItem : Bytes → Bytes → Member → Bytes → Prop
  | literal {key s text rest : Bytes} {kind : Kind} :
      applyTable key = some (.literal kind) → kind.Token s text rest →
      kind.Accepts text → ClosedItem key s (.literal ⟨key, text⟩) rest
  | object {key s body rest : Bytes} {table : Table}
      {fields : List Literal} :
      applyTable key = some (.object table) → ClosedAt s body rest →
      Passes (Tidy (FieldItem table)) body fields [] →
      ClosedItem key s (.object key fields) rest

def TidyReads (payload : Bytes) (doc : List Member) : Prop :=
  ∃ body, Body payload body ∧ Passes (Tidy ClosedItem) body doc []

/-! What is around the members of an object. -/

theorem Separated.cases {rest : Bytes} (h : Separated rest) :
    (Blank rest ∧ memberEnd rest = []) ∨
      ∃ tail, After comma rest tail ∧ memberEnd rest = trimmed tail := by
  unfold Separated at h
  unfold memberEnd
  cases htrim : trimStart rest with
  | nil => exact .inl ⟨trimStart_eq_nil_iff.mp htrim, rfl⟩
  | cons c tail =>
      obtain rfl : c = comma := h c (by rw [htrim]; rfl)
      exact .inr ⟨tail, (trimStart_eq_cons_iff (by rfl)).mp htrim, rfl⟩

theorem separated_of_blank {rest : Bytes} (h : Blank rest) :
    Separated rest := by
  unfold Separated
  rw [trimStart_eq_nil_iff.mpr h]
  exact fun _ hc => absurd hc (by simp)

/-- A span that does not reach the end of the view ends with a brace. -/
theorem braceSpan_closed {depth : Nat} {s : Bytes}
    (h : (braceSpan (depth + 1) s).2 ≠ []) :
    ∃ front, (braceSpan (depth + 1) s).1 = front ++ [rbrace] := by
  induction s generalizing depth with
  | nil => exact absurd rfl h
  | cons c s ih =>
      by_cases hl : c = lbrace
      · simp only [braceSpan, if_pos hl] at h ⊢
        obtain ⟨front, hfront⟩ := ih h
        exact ⟨c :: front, by rw [hfront]; rfl⟩
      · by_cases hr : c = rbrace
        · simp only [braceSpan, if_neg hl, if_pos hr] at h ⊢
          cases depth with
          | zero => exact ⟨[], by rw [hr]; cases s <;> rfl⟩
          | succ depth =>
              obtain ⟨front, hfront⟩ := ih h
              exact ⟨c :: front, by rw [hfront]; rfl⟩
        · simp only [braceSpan, if_neg hl, if_neg hr] at h ⊢
          obtain ⟨front, hfront⟩ := ih h
          exact ⟨c :: front, by rw [hfront]; rfl⟩

section Slice

variable {inside inner : Bytes} {last : UInt8}
  (htrim : trimmed (lbrace :: (braceSpan 1 inside).1) =
    lbrace :: (inner ++ [last]))

include htrim

theorem slice_trimEnd : trimEnd (braceSpan 1 inside).1 = inner ++ [last] := by
  rw [trimmed_cons (by rfl)] at htrim
  exact (List.cons.inj htrim).2

theorem slice_last : isWhitespace last = false := by
  have hend := slice_trimEnd htrim
  have hne : trimEnd (braceSpan 1 inside).1 ≠ [] := by simp [hend]
  have hlast := List.rdropWhile_last_not isWhitespace _ hne
  simp only [trimEnd] at hend
  simpa [hend] using hlast

theorem slice_split :
    ∃ front back gap, Blank front ∧ Blank back ∧ Blank gap ∧
      inside = front ++ trimmed inner ++
        (back ++ last :: (gap ++ (braceSpan 1 inside).2)) := by
  obtain ⟨gap, hgap, hspan⟩ := exists_blank_end (braceSpan 1 inside).1
  obtain ⟨front, back, hfront, hback, hinner⟩ := exists_blanks inner
  refine ⟨front, back, gap, hfront, hback, hgap, ?_⟩
  calc inside = (braceSpan 1 inside).1 ++ (braceSpan 1 inside).2 :=
        (braceSpan_append 1 inside).symm
    _ = inner ++ [last] ++ gap ++ (braceSpan 1 inside).2 := by
        rw [← slice_trimEnd htrim, ← hspan]
    _ = front ++ trimmed inner ++ back ++ [last] ++ gap ++
          (braceSpan 1 inside).2 := by rw [← hinner]
    _ = _ := by simp

theorem slice_open (hlast : last ≠ rbrace) : (braceSpan 1 inside).2 = [] := by
  by_contra hne
  obtain ⟨front, hfront⟩ : ∃ front, (braceSpan (0 + 1) inside).1 =
      front ++ [rbrace] := braceSpan_closed hne
  have hend := slice_trimEnd htrim
  rw [hfront, trimEnd, List.rdropWhile_concat_neg _ _ _ (by decide)] at hend
  exact hlast (List.singleton_inj.mp (List.append_inj' hend rfl).2).symm

end Slice

/-! A tidy reading follows the grammar. -/

section MembersOfPasses

variable {M : Type} {Item : Bytes → Bytes → M → Bytes → Prop}
  {Value : Bytes → Bytes → Bytes → Prop}

theorem members_of_passes
    (hvalue : ∀ {key s m rest t after}, Item key s m rest →
      After rbrace t after → ∃ blank, Blank blank ∧
        Value key (s ++ t) (blank ++ (rest ++ t)))
    {v left : Bytes} {ms : List M} (h : Passes (Tidy Item) v ms left)
    (hleft : left = []) {blank t after : Bytes} (hblank : Blank blank)
    (ht : After rbrace t after) : Members Value (blank ++ v ++ t) after := by
  induction h generalizing blank t with
  | here =>
      subst hleft
      rw [List.append_nil]
      exact .none (ht.prepend hblank)
  | @next s afterKey afterColon afterValue rest key m ms hkey hcolon hitem
      _ ih =>
      have hkey' := (hkey.append t).prepend hblank
      rw [← List.append_assoc] at hkey'
      have hcolon' : Colon (afterKey ++ t) (afterColon ++ t) :=
        After.append hcolon t
      obtain ⟨gap, hgap, hread⟩ := hvalue hitem.1 ht
      rcases hitem.2.cases with ⟨hspace, hend⟩ | ⟨tail, hcomma, hend⟩
      · have hclose := ht.prepend (hgap.append hspace)
        rw [List.append_assoc] at hclose
        exact .last hkey' hcolon' hread hclose
      · obtain ⟨front, back, hfront, hback, htail⟩ := exists_blanks tail
        have hcomma' := (hcomma.append t).prepend hgap
        refine .more hkey' hcolon' hread hcomma' ?_
        have hrest := ih hleft hfront (ht.prepend hback)
        rw [hend, ← List.append_assoc, ← htail] at hrest
        exact hrest

end MembersOfPasses

theorem FieldItem.value {table : Table} {key s rest t after : Bytes}
    {m : Literal} (h : FieldItem table key s m rest)
    (ht : After rbrace t after) :
    ∃ blank, Blank blank ∧
      FieldValue table key (s ++ t) (blank ++ (rest ++ t)) := by
  obtain ⟨hkind, htoken, _⟩ := h
  exact ⟨[], blank_nil, .intro hkind
    (htoken.append fun _ => ht.not_digit (by decide))⟩

theorem ClosedItem.value {key s rest t after : Bytes} {m : Member}
    (h : ClosedItem key s m rest) (ht : After rbrace t after) :
    ∃ blank, Blank blank ∧
      ApplyValue key (s ++ t) (blank ++ (rest ++ t)) := by
  cases h with
  | literal hkind htoken _ =>
      exact ⟨[], blank_nil, .literal hkind
        (htoken.append fun _ => ht.not_digit (by decide))⟩
  | object htable hclosed hpasses =>
      obtain ⟨inside, inner, rfl, rfl, htrim, rfl⟩ := hclosed.slice
      obtain ⟨front, back, gap, hfront, hback, hgap, hinside⟩ :=
        slice_split htrim
      have hclose : After rbrace
          (back ++ rbrace :: (gap ++ (braceSpan 1 inside).2) ++ t)
          (gap ++ ((braceSpan 1 inside).2 ++ t)) :=
        ⟨back, hback, by simp⟩
      have hmembers := members_of_passes (fun hitem => hitem.value) hpasses
        rfl hfront hclose
      rw [← List.append_assoc, ← hinside] at hmembers
      exact ⟨gap, hgap, .object htable ⟨[], blank_nil, rfl⟩ hmembers⟩

theorem wellFormed_of_tidyReads {payload : Bytes} {doc : List Member}
    (h : TidyReads payload doc) : WellFormed payload := by
  obtain ⟨body, hbody, hpasses⟩ := h
  obtain ⟨inner, htrim, rfl⟩ := hbody.braces
  obtain ⟨front, back, hfront, hback, hinner⟩ := exists_blanks inner
  have hmembers := members_of_passes (fun hitem => hitem.value) hpasses rfl
    hfront (⟨back, hback, rfl⟩ : After rbrace (back ++ [rbrace]) [])
  rw [← List.append_assoc, ← hinner] at hmembers
  exact ⟨inner ++ [rbrace], htrim, hmembers⟩

/-! The other way around: a reading of a well-formed payload is tidy. -/

/-- How the grammar reads on where a view with `rest` after a value goes on
with `gap`, `last` and `after`. It may go on from the same place; it may find a
longer number at the end of the view; or nothing is left. -/
inductive ReadsOn (rest gap : Bytes) (last : UInt8) (after : Bytes) :
    Bytes → Prop
  | same {blank : Bytes} :
      Blank blank →
      ReadsOn rest gap last after (blank ++ (rest ++ (gap ++ last :: after)))
  | longer {rest' : Bytes} :
      rest = [] → last ≠ rbrace → rest' <:+ after →
      ReadsOn rest gap last after rest'

section PassesTidy

variable {M : Type} {Item Closed : Bytes → Bytes → M → Bytes → Prop}
  {Value : Bytes → Bytes → Bytes → Prop}

theorem passes_nil {ms : List M} (h : Passes Item [] ms []) : ms = [] := by
  cases h with
  | here => rfl
  | next hkey => exact absurd rfl hkey.ne_nil

/-- Behind a comma the members go on at the same place in a longer view. -/
theorem separated_of_comma {afterValue tail : Bytes}
    (htrim : trimStart afterValue = comma :: tail) (more : Bytes) :
    Separated afterValue ∧
      ∃ front back, Blank front ∧ Blank back ∧
        tail ++ more = front ++ (memberEnd afterValue ++ (back ++ more)) := by
  have hsep : Separated afterValue := by
    intro c hc
    rw [htrim] at hc
    exact (Option.some.inj hc).symm
  have hend : memberEnd afterValue = trimmed tail := by
    rw [memberEnd, htrim]
    rfl
  obtain ⟨front, back, hfront, hback, htail⟩ := exists_blanks tail
  refine ⟨hsep, front, back, hfront, hback, ?_⟩
  rw [hend]
  nth_rewrite 1 [htail]
  simp

theorem passes_rbrace {s tail : Bytes} {ms : List M}
    (hs : After rbrace s tail) : ¬Passes Item s ms [] := by
  intro h
  cases h with
  | here => exact not_after_nil hs
  | next hkey => exact not_quoted_of_after (by decide) (by decide) hs hkey

/-- The last member of a view, with nothing but blanks after it. -/
theorem passes_last {s key afterKey afterColon afterValue : Bytes} {m : M}
    {ms : List M} (hkey : Quoted s key afterKey)
    (hcolon : Colon afterKey afterColon)
    (hclosed : Closed key afterColon m afterValue) (hblank : Blank afterValue)
    (hpasses : Passes Item (memberEnd afterValue) ms []) :
    Passes (Tidy Closed) s (m :: ms) [] := by
  have hend : memberEnd afterValue = [] := by
    rw [memberEnd, trimStart_eq_nil_iff.mpr hblank]
  rw [hend] at hpasses
  obtain rfl := passes_nil hpasses
  refine .next hkey hcolon ⟨hclosed, separated_of_blank hblank⟩ ?_
  rw [hend]
  exact .here

/-- What the members of a view become in the grammar, where the view ends
before `last`. -/
structure Agrees (Closed : Bytes → Bytes → M → Bytes → Prop) (v : Bytes)
    (ms : List M) (last : UInt8) (after rest : Bytes) : Prop where
  tidy : Passes (Tidy Closed) v ms []
  same : last = rbrace → rest = after
  closes : rbrace :: rest <:+ last :: after

variable {last : UInt8} {after : Bytes} (hlast : isWhitespace last = false)
  (hsuffix : ∀ {key s rest}, Value key s rest → rest <:+ s)

include hlast hsuffix

theorem agrees_here {blank rest : Bytes} (hblank : Blank blank)
    (hmembers : Members Value (blank ++ last :: after) rest) :
    Agrees Closed [] [] last after rest where
  tidy := .here
  same := by
    rintro rfl
    have hview : After rbrace (blank ++ rbrace :: after) after :=
      ⟨blank, hblank, rfl⟩
    cases hmembers with
    | none hclose => exact (hclose.unique (by decide) (by decide) hview).2
    | last hkey =>
        exact absurd hkey (not_quoted_of_after (by decide) (by decide) hview)
    | more hkey =>
        exact absurd hkey (not_quoted_of_after (by decide) (by decide) hview)
  closes := suffix_of_append (hblank.not_mem (by decide))
    (hmembers.closes hsuffix)

theorem agrees_end {s key afterKey afterColon afterValue rest' rest : Bytes}
    {m : M} {ms : List M} (hkey : Quoted s key afterKey)
    (hcolon : Colon afterKey afterColon)
    (hclosed : Closed key afterColon m afterValue) (hblank : Blank afterValue)
    (hpasses : Passes Item (memberEnd afterValue) ms [])
    (hon : After last rest' after ∨ last ≠ rbrace ∧ rest' <:+ after)
    (hgoes : After rbrace rest' rest ∨
        ∃ afterComma, After comma rest' afterComma ∧
          Members Value afterComma rest) :
    Agrees Closed s (m :: ms) last after rest where
  tidy := passes_last hkey hcolon hclosed hblank hpasses
  same := by
    rintro rfl
    have hview := hon.resolve_right fun h => h.1 rfl
    rcases hgoes with hclose | ⟨afterComma, hcomma, _⟩
    · exact (hclose.unique (by decide) (by decide) hview).2
    · exact absurd (hcomma.unique (by decide) (by decide) hview).1 (by decide)
  closes := by
    rcases hgoes with hclose | ⟨afterComma, hcomma, hmembers⟩
    · rcases hon with hview | ⟨_, hview⟩
      · obtain ⟨rfl, rfl⟩ := hclose.unique (by decide) hlast hview
        exact List.suffix_rfl
      · exact (hclose.suffix.trans hview).trans (List.suffix_cons _ _)
    · have hcloses := hmembers.closes hsuffix
      rcases hon with hview | ⟨_, hview⟩
      · obtain ⟨rfl, rfl⟩ := hcomma.unique (by decide) hlast hview
        exact hcloses.trans (List.suffix_cons _ _)
      · exact hcloses.trans ((List.suffix_cons _ _).trans
          ((hcomma.suffix.trans hview).trans (List.suffix_cons _ _)))

theorem passes_tidy
    (hvalue : ∀ {key s m rest gap rest'}, Item key s m rest → Blank gap →
      Value key (s ++ (gap ++ last :: after)) rest' →
        rest' = [] ∨
          Closed key s m rest ∧ ReadsOn rest gap last after rest')
    {v left : Bytes} {ms : List M} (h : Passes Item v ms left)
    (hleft : left = []) {blank gap rest : Bytes} (hblank : Blank blank)
    (hgap : Blank gap)
    (hmembers : Members Value (blank ++ (v ++ (gap ++ last :: after))) rest) :
    Agrees Closed v ms last after rest := by
  induction h generalizing blank gap with
  | here =>
      subst hleft
      rw [List.nil_append, ← List.append_assoc] at hmembers
      exact agrees_here hlast hsuffix (hblank.append hgap) hmembers
  | @next s afterKey afterColon afterValue left key m ms hkey hcolon hitem
      hpasses ih =>
      subst hleft
      have hcolon' : Colon (afterKey ++ (gap ++ last :: after))
          (afterColon ++ (gap ++ last :: after)) := After.append hcolon _
      obtain ⟨rest', hread, hgoes⟩ := Members.of_quoted
        ((hkey.append _).prepend hblank) hcolon' hmembers
      rcases hvalue hitem hgap hread with rfl | ⟨hclosed, hon⟩
      · rcases hgoes with hclose | ⟨afterComma, hcomma, _⟩
        · exact absurd hclose not_after_nil
        · exact absurd hcomma not_after_nil
      · cases hon with
        | longer hempty hne hview =>
            subst hempty
            exact agrees_end hlast hsuffix hkey hcolon hclosed blank_nil
              hpasses (.inr ⟨hne, hview⟩) hgoes
        | @same between hbetween =>
            cases htrim : trimStart afterValue with
            | nil =>
                have hspace := trimStart_eq_nil_iff.mp htrim
                have hview : After last (between ++ (afterValue ++
                    (gap ++ last :: after))) after :=
                  ⟨between ++ afterValue ++ gap,
                    (hbetween.append hspace).append hgap, by simp⟩
                exact agrees_end hlast hsuffix hkey hcolon hclosed hspace
                  hpasses (.inl hview) hgoes
            | cons d tail =>
                have hd := trimStart_head htrim
                have hnext : After d afterValue tail :=
                  (trimStart_eq_cons_iff hd).mp htrim
                have hview := (hnext.append (gap ++ last :: after)).prepend
                  hbetween
                rcases hgoes with hclose | ⟨afterComma, hcomma, hmore⟩
                · obtain ⟨rfl, _⟩ := hclose.unique (by decide) hd hview
                  have hend : memberEnd afterValue = rbrace :: tail := by
                    rw [memberEnd, htrim]
                    rfl
                  exact absurd hpasses
                    (passes_rbrace ⟨[], blank_nil, hend⟩)
                · obtain ⟨rfl, rfl⟩ := hcomma.unique (by decide) hd hview
                  obtain ⟨hsep, front, back, hfront, hback, hview'⟩ :=
                    separated_of_comma htrim (gap ++ last :: after)
                  rw [hview', ← List.append_assoc back] at hmore
                  have hagrees := ih rfl hfront (hback.append hgap) hmore
                  exact ⟨.next hkey hcolon ⟨hclosed, hsep⟩ hagrees.tidy,
                    hagrees.same, hagrees.closes⟩

end PassesTidy

/-! The values. -/

section Values

variable {gap after rest rest' : Bytes} {last : UInt8}

theorem dropWhile_digits_suffix (hgap : Blank gap) {c : UInt8}
    (hc : c ∈ (gap ++ last :: after).head?) (hdigit : isDigit c = true) :
    last ≠ rbrace ∧
      (gap ++ last :: after).dropWhile isDigit <:+ after := by
  cases gap with
  | nil =>
      obtain rfl : last = c := by simpa using hc
      refine ⟨?_, ?_⟩
      · rintro rfl
        contradiction
      · rw [List.nil_append, List.dropWhile_cons_of_pos hdigit]
        exact List.dropWhile_suffix _
  | cons d gap =>
      obtain rfl : d = c := by simpa using hc
      have hspace := hgap d List.mem_cons_self
      rw [isDigit_not_whitespace hdigit] at hspace
      contradiction

/-- Only a number at the very end of a view can go on behind it. -/
theorem Kind.Token.readsOn {kind : Kind} {s text text' : Bytes}
    (hgap : Blank gap) (h : kind.Token s text rest)
    (h' : kind.Token (s ++ (gap ++ last :: after)) text' rest') :
    ReadsOn rest gap last after rest' := by
  by_cases hdigit : rest = [] →
      ∀ c ∈ (gap ++ last :: after).head?, isDigit c = false
  · rw [(h'.unique (h.append hdigit)).2]
    exact .same blank_nil
  · push Not at hdigit
    obtain ⟨rfl, c, hc, hne⟩ := hdigit
    by_cases hkind : kind = .string
    · subst hkind
      rw [(Quoted.unique h' (Quoted.append h _)).2]
      exact .same blank_nil
    · obtain ⟨hlast, hsuffix⟩ :=
        dropWhile_digits_suffix hgap hc (by simpa using hne)
      rw [(h'.unique (h.extend hkind _)).2]
      exact .longer rfl hlast hsuffix

theorem FieldItem.readsOn {table : Table} {key s : Bytes} {m : Literal}
    (h : FieldItem table key s m rest) (hgap : Blank gap)
    (h' : FieldValue table key (s ++ (gap ++ last :: after)) rest') :
    ReadsOn rest gap last after rest' := by
  obtain ⟨hkind, htoken, _⟩ := h
  obtain ⟨hkind', htoken'⟩ := h'
  obtain rfl := Option.some.inj (hkind.symm.trans hkind')
  exact htoken.readsOn hgap htoken'

/-- A sub-object of a well-formed payload that the brace matcher takes to the
end of the view would leave no brace for the payload. -/
theorem ApplyItem.readsOn {key s : Bytes} {m : Member}
    (h : ApplyItem key s m rest) (hgap : Blank gap)
    (h' : ApplyValue key (s ++ (gap ++ [rbrace])) rest') :
    rest' = [] ∨
      ClosedItem key s m rest ∧ ReadsOn rest gap rbrace [] rest' := by
  cases h with
  | literal hkind htoken haccepts =>
      right
      refine ⟨.literal hkind htoken haccepts, ?_⟩
      cases h' with
      | literal hkind' htoken' =>
          obtain rfl := Value.literal.inj
            (Option.some.inj (hkind.symm.trans hkind'))
          exact htoken.readsOn hgap htoken'
      | object htable _ _ =>
          have hnever := hkind.symm.trans htable
          simp at hnever
  | object htable hobject hpasses =>
      cases h' with
      | literal hkind _ =>
          have hnever := htable.symm.trans hkind
          simp at hnever
      | object htable' hopen hmembers =>
          obtain rfl := Value.object.inj
            (Option.some.inj (htable.symm.trans htable'))
          obtain ⟨inside, inner, last, rfl, rfl, htrim, rfl⟩ := hobject.slice
          have hview : After lbrace
              (lbrace :: inside ++ (gap ++ [rbrace]))
              (inside ++ (gap ++ [rbrace])) := ⟨[], blank_nil, rfl⟩
          obtain ⟨_, rfl⟩ := hopen.unique (by decide) (by decide) hview
          obtain ⟨front, back, between, hfront, hback, hbetween, hinside⟩ :=
            slice_split htrim
          have hsplit : inside ++ (gap ++ [rbrace]) =
              front ++ (trimmed inner ++ (back ++ last ::
                (between ++ ((braceSpan 1 inside).2 ++
                  (gap ++ [rbrace]))))) := by
            nth_rewrite 1 [hinside]
            simp
          rw [hsplit] at hmembers
          have hagrees := passes_tidy (slice_last htrim) FieldValue.suffix
            (fun hitem hgap hread => .inr ⟨hitem, hitem.readsOn hgap hread⟩)
            hpasses rfl hfront hback hmembers
          by_cases hlast : last = rbrace
          · subst hlast
            right
            refine ⟨.object htable ⟨inside, inner, rfl, rfl, htrim, rfl⟩
              hagrees.tidy, ?_⟩
            rw [hagrees.same rfl]
            exact .same hbetween
          · left
            have hcloses := hagrees.closes
            rw [slice_open htrim hlast, List.nil_append, ← List.append_assoc,
              ← List.cons_append] at hcloses
            have hnot : rbrace ∉ last :: (between ++ gap) := by
              rw [List.mem_cons, not_or]
              exact ⟨Ne.symm hlast,
                (hbetween.append hgap).not_mem (by decide)⟩
            have hlength := (suffix_of_append hnot hcloses).length_le
            exact List.eq_nil_of_length_eq_zero (by simpa using hlength)

end Values

theorem tidyReads_of_wellFormed {payload : Bytes} {doc : List Member}
    (h : Reads payload doc) (hwell : WellFormed payload) :
    TidyReads payload doc := by
  obtain ⟨body, hbody, hpasses⟩ := h
  obtain ⟨inner, htrim, rfl⟩ := hbody.braces
  obtain ⟨inside, hinside, hmembers⟩ := hwell
  obtain rfl : inner ++ [rbrace] = inside :=
    (List.cons.inj (htrim.symm.trans hinside)).2
  obtain ⟨front, back, hfront, hback, hinner⟩ := exists_blanks inner
  have hsplit : inner ++ [rbrace] =
      front ++ (trimmed inner ++ (back ++ [rbrace])) := by
    nth_rewrite 1 [hinner]
    simp
  rw [hsplit] at hmembers
  exact ⟨_, hbody, (passes_tidy (by decide) ApplyValue.suffix
    (fun hitem hgap hread => hitem.readsOn hgap hread) hpasses rfl hfront
    hback hmembers).tidy⟩

end HeidiKernel.Gov
