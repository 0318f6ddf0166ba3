import HeidiKernel.GovRule.Token

namespace HeidiKernel.Gov

open HeidiKernel.Data

/-! The tokens of a text, whatever the text. Blanks are lost, but for those in
a string. -/

inductive Token
  | string (text : Bytes)
  | number (text : Bytes)
  | byte (c : UInt8)
  /-- A string nothing closes, without the blanks at its end. -/
  | unclosed (text : Bytes)
  deriving DecidableEq, Repr

/-- The text up to the closing quote, and the text behind it. -/
def closeString : Bytes → Option (Bytes × Bytes)
  | [] => none
  | [c] => if c = quote then some ([], []) else none
  | c :: d :: s =>
      if c = quote then some ([], d :: s)
      else if c = backslash then
        (closeString s).map fun (text, rest) => (c :: d :: text, rest)
      else
        (closeString (d :: s)).map fun (text, rest) => (c :: text, rest)

def signOf (c : UInt8) : Bytes := if c = minus then [minus] else []

/-- The first token after the blanks, and what it leaves. -/
def nextToken (s : Bytes) : Option (Token × Bytes) :=
  match trimStart s with
  | [] => none
  | c :: rest =>
      if c = quote then
        match closeString rest with
        | some (text, rest) => some (.string text, rest)
        | none => some (.unclosed (trimEnd rest), [])
      else
        let sign := signOf c
        let unsigned := (c :: rest).drop sign.length
        if unsigned.takeWhile isDigit = [] then
          some (.byte c, rest)
        else
          some (.number (sign ++ unsigned.takeWhile isDigit),
            unsigned.dropWhile isDigit)

/-- A byte that starts no string and no number. -/
structure Single (c : UInt8) (rest : Bytes) : Prop where
  solid : isWhitespace c = false
  quote : c ≠ quote
  digit : isDigit c = false
  minus : c = minus → ∀ d ∈ rest.head?, isDigit d = false

inductive Next : Bytes → Token → Bytes → Prop
  | string {s text rest : Bytes} :
      Quoted s text rest → Next s (.string text) rest
  | number {s text rest : Bytes} :
      Signed s text rest → Next s (.number text) rest
  | byte {s rest : Bytes} {c : UInt8} :
      After c s rest → Single c rest → Next s (.byte c) rest
  | unclosed {s text : Bytes} :
      After quote s text → (∀ key rest, ¬Quoted s key rest) →
      Next s (.unclosed (trimEnd text)) []

/-! The next token is the one the grammar finds. -/

theorem closeString_units {text : Bytes} (h : Units text) (rest : Bytes) :
    closeString (text ++ quote :: rest) = some (text, rest) := by
  induction h with
  | nil => cases rest <;> simp [closeString]
  | @plain c text hquote hback _ ih =>
      cases htail : text ++ quote :: rest with
      | nil => simp at htail
      | cons d tail =>
          rw [htail] at ih
          rw [List.cons_append, htail, closeString, if_neg hquote,
            if_neg hback, ih]
          rfl
  | escaped _ ih =>
      rw [List.cons_append, List.cons_append, closeString,
        if_neg (by decide), if_pos rfl, ih]
      rfl

theorem units_of_closeString {s text rest : Bytes}
    (h : closeString s = some (text, rest)) :
    Units text ∧ s = text ++ quote :: rest := by
  induction s using closeString.induct generalizing text rest with
  | case1 => contradiction
  | case2 =>
      obtain ⟨rfl, rfl⟩ : text = [] ∧ rest = [] := by
        simpa [closeString, eq_comm] using h
      exact ⟨.nil, rfl⟩
  | case3 c hquote => simp [closeString, hquote] at h
  | case4 d s =>
      obtain ⟨rfl, rfl⟩ : text = [] ∧ d :: s = rest := by
        simpa [closeString, eq_comm] using h
      exact ⟨.nil, rfl⟩
  | case5 d s hback ih =>
      rw [closeString, if_neg hback, if_pos rfl, Option.map_eq_some_iff] at h
      obtain ⟨⟨text', rest'⟩, hclose, heq⟩ := h
      obtain ⟨rfl, rfl⟩ := Prod.mk.inj heq
      obtain ⟨hunits, rfl⟩ := ih hclose
      exact ⟨.escaped hunits, rfl⟩
  | case6 c d s hquote hback ih =>
      rw [closeString, if_neg hquote, if_neg hback,
        Option.map_eq_some_iff] at h
      obtain ⟨⟨text', rest'⟩, hclose, heq⟩ := h
      obtain ⟨rfl, rfl⟩ := Prod.mk.inj heq
      obtain ⟨hunits, hs⟩ := ih hclose
      exact ⟨.plain hquote hback hunits, by rw [hs]; rfl⟩

theorem nextToken_eq_none_iff {s : Bytes} :
    nextToken s = none ↔ Blank s := by
  rw [← trimStart_eq_nil_iff]
  unfold nextToken
  cases trimStart s with
  | nil => simp
  | cons c rest =>
      simp only [reduceCtorEq, iff_false]
      split_ifs
      · cases closeString rest <;> simp
      · simp
      · simp

theorem signOf_cases (c : UInt8) : signOf c = [minus] ∨ signOf c = [] := by
  unfold signOf
  split_ifs
  · exact .inl rfl
  · exact .inr rfl

theorem signOf_append_drop (c : UInt8) (rest : Bytes) :
    signOf c ++ (c :: rest).drop (signOf c).length = c :: rest := by
  by_cases hc : c = minus <;> simp [signOf, hc]

theorem signed_of_trimStart {s sign unsigned : Bytes}
    (h : trimStart s = sign ++ unsigned)
    (hsign : sign = [minus] ∨ sign = [])
    (hne : unsigned.takeWhile isDigit ≠ []) :
    Signed s (sign ++ unsigned.takeWhile isDigit)
      (unsigned.dropWhile isDigit) := by
  obtain ⟨blank, hblank, hs⟩ := exists_blank s
  obtain ⟨hdigits, hrest⟩ := digits_of_takeWhile hne
  refine ⟨blank, sign, _, hblank, hsign, hdigits, rfl, hrest, ?_⟩
  rw [List.append_assoc, List.append_assoc, List.takeWhile_append_dropWhile,
    ← h, ← hs]

theorem takeWhile_isDigit_eq_nil {s : Bytes}
    (h : s.takeWhile isDigit = []) : ∀ c ∈ s.head?, isDigit c = false := by
  cases s with
  | nil => exact fun _ hc => absurd hc (by simp)
  | cons c s =>
      intro d hd
      obtain rfl : c = d := by simpa using hd
      cases hdigit : isDigit c with
      | false => rfl
      | true => simp [hdigit] at h

theorem next_of_nextToken {s rest : Bytes} {t : Token}
    (h : nextToken s = some (t, rest)) : Next s t rest := by
  unfold nextToken at h
  cases htrim : trimStart s with
  | nil => simp [htrim] at h
  | cons c tail =>
      have hc := trimStart_head htrim
      have hafter : After c s tail := (trimStart_eq_cons_iff hc).mp htrim
      simp only [htrim] at h
      split_ifs at h with hquote hdigits
      · subst hquote
        cases hclose : closeString tail with
        | none =>
            obtain ⟨rfl, rfl⟩ : _ ∧ [] = rest := by simpa [hclose] using h
            refine .unclosed hafter ?_
            intro key rest hkey
            have heq := htrim.symm.trans hkey.trimStart
            rw [(List.cons.inj heq).2, closeString_units hkey.units] at hclose
            contradiction
        | some found =>
            obtain ⟨text, rest'⟩ := found
            obtain ⟨rfl, rfl⟩ : _ ∧ rest' = rest := by simpa [hclose] using h
            obtain ⟨blank, hblank, rfl⟩ := hafter
            obtain ⟨hunits, rfl⟩ := units_of_closeString hclose
            exact .string ⟨blank, hblank, hunits, by simp⟩
      · obtain ⟨rfl, rfl⟩ : _ ∧ tail = rest := by simpa using h
        refine .byte hafter ⟨hc, hquote, ?_, ?_⟩
        · by_cases hminus : c = minus
          · rw [hminus]
            rfl
          · rw [signOf, if_neg hminus] at hdigits
            exact takeWhile_isDigit_eq_nil hdigits c rfl
        · rintro rfl
          exact takeWhile_isDigit_eq_nil hdigits
      · obtain ⟨rfl, rfl⟩ : _ ∧ _ = rest := by simpa using h
        refine .number (signed_of_trimStart ?_ (signOf_cases c) hdigits)
        rw [htrim, signOf_append_drop]

theorem nextToken_of_next {s rest : Bytes} {t : Token} (h : Next s t rest) :
    nextToken s = some (t, rest) := by
  cases h with
  | string hquoted =>
      simp [nextToken, hquoted.trimStart, closeString_units hquoted.units]
  | number hsigned =>
      have hrest := hsigned.not_digit
      rcases hsigned.cases with ⟨digits, rfl, hdigits, htrim⟩ | ⟨hdigits, htrim⟩
      · have htake := takeWhile_span hdigits.all hrest
        have hdrop := dropWhile_span hdigits.all hrest
        have hne : minus ≠ quote := by decide
        simp [nextToken, htrim, signOf, hne, htake, hdrop, hdigits.nonempty]
      · have htake := takeWhile_span hdigits.all hrest
        have hdrop := dropWhile_span hdigits.all hrest
        obtain ⟨c, tail, rfl, hc⟩ := hdigits.exists_cons
        have hquote : c ≠ quote := by
          rintro rfl
          contradiction
        rw [List.cons_append] at htrim htake hdrop
        simp only [nextToken, htrim, if_neg hquote, signOf,
          if_neg (isDigit_ne_minus hc), List.length_nil, List.drop_zero,
          htake, hdrop, List.cons_ne_nil, if_false, List.nil_append]
  | @byte rest c hafter hsingle =>
      have htrim := trimStart_of_after hsingle.solid hafter
      have htake : ((c :: rest).drop (signOf c).length).takeWhile isDigit =
          [] := by
        by_cases hminus : c = minus
        · subst hminus
          cases rest with
          | nil => rfl
          | cons d rest => simp [signOf, hsingle.minus rfl d rfl]
        · simp [signOf, hminus, hsingle.digit]
      simp only [nextToken, htrim, if_neg hsingle.quote, htake, if_true]
  | @unclosed text hafter hnone =>
      have htrim := trimStart_of_after (by decide) hafter
      have hclose : closeString text = none := by
        cases hclose : closeString text with
        | none => rfl
        | some found =>
            obtain ⟨key, rest⟩ := found
            obtain ⟨blank, hblank, rfl⟩ := hafter
            obtain ⟨hunits, rfl⟩ := units_of_closeString hclose
            exact absurd ⟨blank, hblank, hunits, by simp⟩ (hnone key rest)
      simp [nextToken, htrim, hclose]

theorem nextToken_eq_some_iff {s rest : Bytes} {t : Token} :
    nextToken s = some (t, rest) ↔ Next s t rest :=
  ⟨next_of_nextToken, nextToken_of_next⟩

theorem Next.length_lt {s rest : Bytes} {t : Token} (h : Next s t rest) :
    rest.length < s.length := by
  cases h with
  | string hquoted => exact hquoted.length_lt
  | number hsigned =>
      obtain ⟨blank, sign, digits, _, _, hdigits, rfl, _, rfl⟩ := hsigned
      have hpos := List.length_pos_of_ne_nil hdigits.nonempty
      simp only [List.length_append]
      omega
  | byte hafter _ => exact hafter.length_lt
  | unclosed hafter _ => exact Nat.lt_of_le_of_lt (Nat.zero_le _) hafter.length_lt

def tokens (s : Bytes) : List Token :=
  match _h : nextToken s with
  | none => []
  | some (t, rest) => t :: tokens rest
termination_by s.length
decreasing_by exact (next_of_nextToken _h).length_lt

theorem tokens_of_next {s rest : Bytes} {t : Token} (h : Next s t rest) :
    tokens s = t :: tokens rest := by
  have hnext := nextToken_of_next h
  rw [tokens]
  split
  · next hnone => simp [hnext] at hnone
  · next hsome =>
      obtain ⟨rfl, rfl⟩ : _ ∧ rest = _ := by simpa [hnext] using hsome
      rfl

theorem tokens_eq_nil_iff {s : Bytes} : tokens s = [] ↔ Blank s := by
  rw [← nextToken_eq_none_iff]
  cases hnext : nextToken s with
  | none =>
      rw [tokens]
      split
      · simp
      · next hsome => simp [hnext] at hsome
  | some found =>
      obtain ⟨t, rest⟩ := found
      simp [tokens_of_next (next_of_nextToken hnext)]

theorem exists_next {s : Bytes} {t : Token} {ts : List Token}
    (h : tokens s = t :: ts) : ∃ rest, Next s t rest ∧ tokens rest = ts := by
  cases hnext : nextToken s with
  | none =>
      rw [tokens_eq_nil_iff.mpr (nextToken_eq_none_iff.mp hnext)] at h
      contradiction
  | some found =>
      obtain ⟨t', rest⟩ := found
      have hread := next_of_nextToken hnext
      obtain ⟨rfl, hts⟩ := List.cons.inj ((tokens_of_next hread).symm.trans h)
      exact ⟨rest, hread, hts⟩

/-! Two texts with the same tokens. -/

theorem Next.alike {s s' rest : Bytes} {t : Token} (h : Next s t rest)
    (heq : tokens s = tokens s') :
    ∃ rest', Next s' t rest' ∧ tokens rest = tokens rest' := by
  obtain ⟨rest', hnext, hrest⟩ :=
    exists_next (heq.symm.trans (tokens_of_next h))
  exact ⟨rest', hnext, hrest.symm⟩

theorem Quoted.alike {s s' key rest : Bytes} (h : Quoted s key rest)
    (heq : tokens s = tokens s') :
    ∃ rest', Quoted s' key rest' ∧ tokens rest = tokens rest' := by
  obtain ⟨rest', hnext, hrest⟩ := (Next.string h).alike heq
  cases hnext with
  | string hquoted => exact ⟨rest', hquoted, hrest⟩

theorem Signed.alike {s s' text rest : Bytes} (h : Signed s text rest)
    (heq : tokens s = tokens s') :
    ∃ rest', Signed s' text rest' ∧ tokens rest = tokens rest' := by
  obtain ⟨rest', hnext, hrest⟩ := (Next.number h).alike heq
  cases hnext with
  | number hsigned => exact ⟨rest', hsigned, hrest⟩

theorem Unsigned.signed {s text rest : Bytes} (h : Unsigned s text rest) :
    Signed s text rest := by
  obtain ⟨blank, hblank, hdigits, hrest, hs⟩ := h
  exact ⟨blank, [], text, hblank, .inr rfl, hdigits, rfl, hrest, hs⟩

theorem Signed.unsigned {s text rest : Bytes} (h : Signed s text rest)
    (hdigits : Digits text) : Unsigned s text rest := by
  obtain ⟨blank, sign, digits, hblank, hsign, _, rfl, hrest, hs⟩ := h
  refine ⟨blank, hblank, hdigits, hrest, hs⟩

theorem Unsigned.digits {s text rest : Bytes} (h : Unsigned s text rest) :
    Digits text := by
  obtain ⟨_, _, hdigits, _⟩ := h
  exact hdigits

theorem Unsigned.alike {s s' text rest : Bytes} (h : Unsigned s text rest)
    (heq : tokens s = tokens s') :
    ∃ rest', Unsigned s' text rest' ∧ tokens rest = tokens rest' := by
  obtain ⟨rest', hsigned, hrest⟩ := (Unsigned.signed h).alike heq
  exact ⟨rest', hsigned.unsigned h.digits, hrest⟩

def isMark (c : UInt8) : Bool :=
  c = comma || c = colon || c = lbrace || c = rbrace

theorem single_of_mark {c : UInt8} (h : isMark c = true) (rest : Bytes) :
    Single c rest := by
  have hcases : c = comma ∨ c = colon ∨ c = lbrace ∨ c = rbrace := by
    simpa [isMark, or_assoc] using h
  rcases hcases with rfl | rfl | rfl | rfl <;>
    exact ⟨by decide, by decide, by decide, fun h => absurd h (by decide)⟩

theorem After.alike {c : UInt8} (hc : isMark c = true) {s s' rest : Bytes}
    (h : After c s rest) (heq : tokens s = tokens s') :
    ∃ rest', After c s' rest' ∧ tokens rest = tokens rest' := by
  obtain ⟨rest', hnext, hrest⟩ :=
    (Next.byte h (single_of_mark hc rest)).alike heq
  cases hnext with
  | byte hafter _ => exact ⟨rest', hafter, hrest⟩

theorem Colon.alike {s s' rest : Bytes} (h : Colon s rest)
    (heq : tokens s = tokens s') :
    ∃ rest', Colon s' rest' ∧ tokens rest = tokens rest' :=
  After.alike (by decide) h heq

/-! Trimming loses no token. -/

theorem tokens_congr {s s' : Bytes} (h : trimStart s = trimStart s') :
    tokens s = tokens s' := by
  have hnext : nextToken s = nextToken s' := by rw [nextToken, nextToken, h]
  cases hfound : nextToken s' with
  | none =>
      rw [tokens_eq_nil_iff.mpr (nextToken_eq_none_iff.mp hfound),
        tokens_eq_nil_iff.mpr
          (nextToken_eq_none_iff.mp (hnext.trans hfound))]
  | some found =>
      obtain ⟨t, rest⟩ := found
      rw [tokens_of_next (next_of_nextToken hfound),
        tokens_of_next (next_of_nextToken (hnext.trans hfound))]

theorem tokens_append {blank : Bytes} (h : Blank blank) (s : Bytes) :
    tokens (blank ++ s) = tokens s :=
  tokens_congr (trimStart_append h s)

theorem tokens_trimStart (s : Bytes) : tokens (trimStart s) = tokens s := by
  obtain ⟨blank, hblank, hs⟩ := exists_blank s
  rw [← tokens_append hblank, ← hs]

theorem trimEnd_append_cons {c : UInt8} (hc : isWhitespace c = false)
    (front s : Bytes) : trimEnd (front ++ c :: s) = front ++ c :: trimEnd s := by
  induction s using List.reverseRecOn with
  | nil =>
      rw [trimEnd, List.rdropWhile_concat_neg _ _ _ (by simp [hc])]
      rfl
  | append_singleton s d ih =>
      rw [← List.cons_append, ← List.append_assoc]
      cases hd : isWhitespace d with
      | true =>
          rw [trimEnd, trimEnd, List.rdropWhile_concat_pos _ _ _ hd,
            List.rdropWhile_concat_pos _ _ _ hd]
          exact ih
      | false =>
          rw [trimEnd, trimEnd, List.rdropWhile_concat_neg _ _ _ (by simp [hd]),
            List.rdropWhile_concat_neg _ _ _ (by simp [hd]), List.append_assoc,
            List.cons_append]

theorem not_digit_prefix {front rest : Bytes} (h : front <+: rest)
    (hrest : ∀ c ∈ rest.head?, isDigit c = false) :
    ∀ c ∈ front.head?, isDigit c = false := by
  obtain ⟨back, rfl⟩ := h
  cases front with
  | nil => exact fun _ hc => absurd hc (by simp)
  | cons c front => exact hrest

/-- A closed token ends with a byte that is no blank, and it is the same token
before any front of what follows. -/
theorem Next.split {s rest : Bytes} {t : Token} (h : Next s t rest)
    (ht : ∀ text, t ≠ .unclosed text) :
    ∃ init c, isWhitespace c = false ∧ s = init ++ c :: rest ∧
      ∀ front, front <+: rest → Next (init ++ c :: front) t front := by
  cases h with
  | @string text _ hquoted =>
      obtain ⟨blank, hblank, hunits, rfl⟩ := hquoted
      refine ⟨blank ++ quote :: text, quote, by decide, rfl, ?_⟩
      intro front _
      exact .string ⟨blank, hblank, hunits, rfl⟩
  | number hsigned =>
      obtain ⟨blank, sign, digits, hblank, hsign, hdigits, rfl, hrest,
        rfl⟩ := hsigned
      obtain ⟨init, c, rfl, hc⟩ := hdigits.exists_concat
      refine ⟨blank ++ sign ++ init, c, isDigit_not_whitespace hc, by simp,
        ?_⟩
      intro front hfront
      exact .number ⟨blank, sign, init ++ [c], hblank, hsign, hdigits, rfl,
        not_digit_prefix hfront hrest, by simp⟩
  | @byte rest c hafter hsingle =>
      obtain ⟨blank, hblank, rfl⟩ := hafter
      refine ⟨blank, c, hsingle.solid, rfl, ?_⟩
      intro front hfront
      exact .byte ⟨blank, hblank, rfl⟩ ⟨hsingle.solid, hsingle.quote,
        hsingle.digit, fun hminus =>
          not_digit_prefix hfront (hsingle.minus hminus)⟩
  | unclosed _ _ => exact absurd rfl (ht _)

theorem trimEnd_idem (s : Bytes) : trimEnd (trimEnd s) = trimEnd s :=
  List.rdropWhile_idempotent isWhitespace s

theorem Next.unclosed_trimEnd {s text : Bytes} (hafter : After quote s text)
    (hnone : ∀ key rest, ¬Quoted s key rest) :
    Next (trimEnd s) (.unclosed (trimEnd text)) [] := by
  obtain ⟨back, _, hback⟩ := exists_blank_end s
  have hclosed : ∀ key rest, ¬Quoted (trimEnd s) key rest := by
    intro key rest hkey
    have hlonger := hkey.append back
    rw [← hback] at hlonger
    exact hnone _ _ hlonger
  obtain ⟨blank, hblank, rfl⟩ := hafter
  rw [← trimEnd_idem text]
  refine .unclosed ⟨blank, hblank, ?_⟩ hclosed
  exact trimEnd_append_cons (by decide) _ _

theorem tokens_trimEnd (s : Bytes) : tokens (trimEnd s) = tokens s := by
  induction hlength : s.length using Nat.strong_induction_on generalizing s with
  | _ n ih =>
      subst hlength
      cases hnext : nextToken s with
      | none =>
          have hblank := nextToken_eq_none_iff.mp hnext
          rw [trimEnd_eq_nil_iff.mpr hblank, tokens_eq_nil_iff.mpr hblank]
          exact tokens_eq_nil_iff.mpr blank_nil
      | some found =>
          obtain ⟨t, rest⟩ := found
          have hread := next_of_nextToken hnext
          by_cases hopen : ∃ text, t = .unclosed text
          · obtain ⟨text, rfl⟩ := hopen
            cases hread with
            | unclosed hafter hnone =>
                rw [tokens_of_next (Next.unclosed_trimEnd hafter hnone),
                  tokens_of_next (.unclosed hafter hnone)]
          · obtain ⟨init, c, hc, hs, hfront⟩ :=
              hread.split fun text htext => hopen ⟨text, htext⟩
            have hshort := hread.length_lt
            have htrim : trimEnd s = init ++ c :: trimEnd rest := by
              rw [hs, trimEnd_append_cons hc]
            have hread' := hfront (trimEnd rest) (List.rdropWhile_prefix _ _)
            rw [htrim, tokens_of_next hread', tokens_of_next hread,
              ih _ hshort rest rfl]

theorem tokens_trimmed (s : Bytes) : tokens (trimmed s) = tokens s := by
  rw [trimmed, tokens_trimStart, tokens_trimEnd]

end HeidiKernel.Gov
