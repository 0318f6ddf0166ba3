import HeidiKernel.GovRule.Scan

namespace HeidiKernel.Gov

open HeidiKernel.Data

/-! The texts a token is made of. -/

def Blank (s : Bytes) : Prop := ∀ c ∈ s, isWhitespace c = true

/-- The bytes between two quotes: no quote and no backslash, except that a
backslash takes the byte after it along. -/
inductive Units : Bytes → Prop
  | nil : Units []
  | plain {c : UInt8} {s : Bytes} :
      c ≠ quote → c ≠ backslash → Units s → Units (c :: s)
  | escaped {c : UInt8} {s : Bytes} : Units s → Units (backslash :: c :: s)

structure Digits (s : Bytes) : Prop where
  nonempty : s ≠ []
  all : ∀ c ∈ s, isDigit c = true

/-! A token, after the blanks a view starts with. `rest` is what is left. -/

def Quoted (s text rest : Bytes) : Prop :=
  ∃ blank, Blank blank ∧ Units text ∧
    s = blank ++ quote :: text ++ quote :: rest

def Unsigned (s text rest : Bytes) : Prop :=
  ∃ blank, Blank blank ∧ Digits text ∧
    (∀ c ∈ rest.head?, isDigit c = false) ∧ s = blank ++ text ++ rest

def Signed (s text rest : Bytes) : Prop :=
  ∃ blank sign digits, Blank blank ∧ (sign = [minus] ∨ sign = []) ∧
    Digits digits ∧ text = sign ++ digits ∧
    (∀ c ∈ rest.head?, isDigit c = false) ∧ s = blank ++ text ++ rest

def Colon (s rest : Bytes) : Prop :=
  ∃ blank, Blank blank ∧ s = blank ++ colon :: rest

/-- A scanner reads a token and converts its text; the conversion may still
turn the text down. Where there is no such token it answers false. -/
structure Scans {α : Type} (scan : Bytes → Except Fault (Option α × Bytes))
    (token : Bytes → Bytes → Bytes → Prop)
    (convert : Bytes → Except Fault (Option α)) : Prop where
  reads : ∀ {s text rest}, token s text rest →
    scan s = (convert text).map (·, rest)
  rejects : ∀ {s}, (∀ text rest, ¬ token s text rest) →
    ∃ left, scan s = .ok (none, left)

namespace Scans

variable {α : Type} {scan : Bytes → Except Fault (Option α × Bytes)}
  {token : Bytes → Bytes → Bytes → Prop}
  {convert : Bytes → Except Fault (Option α)}
  (h : Scans scan token convert)

include h

theorem eq_some_iff {s rest : Bytes} {value : α} :
    scan s = .ok (some value, rest) ↔
      ∃ text, token s text rest ∧ convert text = .ok (some value) := by
  constructor
  · intro hscan
    by_cases htoken : ∃ text rest, token s text rest
    · obtain ⟨text, left, htoken⟩ := htoken
      have hread := h.reads htoken
      rw [hscan] at hread
      cases hconvert : convert text with
      | error f => simp [hconvert, Except.map] at hread
      | ok found =>
          simp only [hconvert, Except.map, Except.ok.injEq,
            Prod.mk.injEq] at hread
          obtain ⟨rfl, rfl⟩ := hread
          exact ⟨text, htoken, hconvert⟩
    · obtain ⟨left, hreject⟩ :=
        h.rejects fun text rest hread => htoken ⟨text, rest, hread⟩
      rw [hscan] at hreject
      simp at hreject
  · intro hread
    obtain ⟨text, htoken, hconvert⟩ := hread
    rw [h.reads htoken, hconvert]
    rfl

theorem eq_error_iff {s : Bytes} {f : Fault} :
    scan s = .error f ↔
      ∃ text rest, token s text rest ∧ convert text = .error f := by
  constructor
  · intro hscan
    by_cases htoken : ∃ text rest, token s text rest
    · obtain ⟨text, left, htoken⟩ := htoken
      have hread := h.reads htoken
      rw [hscan] at hread
      cases hconvert : convert text with
      | error f' =>
          simp only [hconvert, Except.map, Except.error.injEq] at hread
          rw [hread]
          exact ⟨text, left, htoken, hconvert⟩
      | ok found => simp [hconvert, Except.map] at hread
    · obtain ⟨left, hreject⟩ :=
        h.rejects fun text rest hread => htoken ⟨text, rest, hread⟩
      rw [hscan] at hreject
      contradiction
  · intro hread
    obtain ⟨text, rest, htoken, hconvert⟩ := hread
    rw [h.reads htoken, hconvert]
    rfl

end Scans

/-! Blanks. -/

theorem trimStart_of_not {c : UInt8} (s : Bytes) (h : isWhitespace c = false) :
    trimStart (c :: s) = c :: s := by
  rw [trimStart_cons, h]
  rfl

theorem trimStart_append {blank : Bytes} (hblank : Blank blank) (s : Bytes) :
    trimStart (blank ++ s) = trimStart s :=
  List.dropWhile_append_of_pos hblank

/-- What a view is after its blanks. -/
theorem exists_blank (s : Bytes) :
    ∃ blank, Blank blank ∧ s = blank ++ trimStart s :=
  ⟨s.takeWhile isWhitespace, fun _ hc => List.mem_takeWhile_imp hc,
    List.takeWhile_append_dropWhile.symm⟩

theorem whitespace_cases {c : UInt8} (h : isWhitespace c = true) :
    c = 0x20 ∨ c = 0x09 ∨ c = 0x0a ∨ c = 0x0d := by
  simpa [isWhitespace, or_assoc] using h

theorem isDigit_not_whitespace {c : UInt8} (h : isDigit c = true) :
    isWhitespace c = false := by
  cases hspace : isWhitespace c with
  | false => rfl
  | true =>
      rcases whitespace_cases hspace with rfl | rfl | rfl | rfl <;>
        contradiction

theorem isDigit_ne_minus {c : UInt8} (h : isDigit c = true) : c ≠ minus := by
  rintro rfl
  contradiction

/-- A token whose first byte is no blank starts where the blanks end. -/
theorem trimStart_eq_cons_iff {s t : Bytes} {c : UInt8}
    (hc : isWhitespace c = false) :
    trimStart s = c :: t ↔ ∃ blank, Blank blank ∧ s = blank ++ c :: t := by
  constructor
  · intro h
    obtain ⟨blank, hblank, hs⟩ := exists_blank s
    exact ⟨blank, hblank, by rw [← h, ← hs]⟩
  · intro h
    obtain ⟨blank, hblank, rfl⟩ := h
    rw [trimStart_append hblank, trimStart_of_not _ hc]

/-! The closing quote. -/

section ClosingQuote

variable {s : Bytes}

theorem closingQuoteStep_safe (i : Nat) (f : Fault) :
    closingQuoteStep s i ≠ .error f := by
  unfold closingQuoteStep
  split
  · next h =>
      simp only [View.get, List.getElem?_eq_getElem h, ok_bind]
      split
      · simp
      · split <;> simp
  · simp

theorem closingQuoteStep_moves {i j : Nat}
    (h : closingQuoteStep s i = .ok (some j)) :
    ∃ c, s[i]? = some c ∧ c ≠ quote ∧
      (c = backslash ∧ i + 1 < s.length ∧ j = i + 2 ∨
        (c = backslash → s.length ≤ i + 1) ∧ j = i + 1) := by
  unfold closingQuoteStep at h
  split at h
  · next hi =>
      refine ⟨s[i], List.getElem?_eq_getElem hi, ?_⟩
      simp only [View.get, List.getElem?_eq_getElem hi, ok_bind] at h
      split at h
      · simp at h
      · next hquote =>
          refine ⟨by simpa using hquote, ?_⟩
          split at h
          · next hescape =>
              simp only [Bool.and_eq_true, beq_iff_eq,
                decide_eq_true_eq] at hescape
              exact .inl ⟨hescape.1, hescape.2, by simpa using h.symm⟩
          · next hescape =>
              refine .inr ⟨?_, by simpa using h.symm⟩
              intro hback
              by_contra hlt
              exact hescape (by simp [hback]; omega)
  · simp at h

theorem closingQuoteStep_ends {i : Nat}
    (h : closingQuoteStep s i = .ok none) :
    s.length ≤ i ∨ s[i]? = some quote := by
  unfold closingQuoteStep at h
  split at h
  · next hi =>
      right
      simp only [View.get, List.getElem?_eq_getElem hi, ok_bind] at h ⊢
      split at h
      · next hquote => simpa using hquote
      · split at h <;> simp at h
  · next hi => exact .inl (by omega)

theorem closingQuoteStep_size (i j : Nat)
    (h : closingQuoteStep s i = .ok (some j)) :
    s.length - j < s.length - i := by
  obtain ⟨c, hc, _, hj⟩ := closingQuoteStep_moves h
  have hi := (List.getElem?_eq_some_iff.mp hc).1
  omega

theorem Units.append {a b : Bytes} (ha : Units a) (hb : Units b) :
    Units (a ++ b) := by
  induction ha with
  | nil => exact hb
  | plain hquote hback _ ih => exact .plain hquote hback ih
  | escaped _ ih => exact .escaped ih

/-- The loop only passes whole units, but for a backslash at the very end. -/
theorem closingQuote_passes {i : Nat}
    (h : Reaches (closingQuoteStep s) 0 i) :
    i ≤ s.length ∧ (Units (s.take i) ∨ i = s.length) := by
  induction h with
  | refl => exact ⟨Nat.zero_le _, .inl (by simpa using Units.nil)⟩
  | @tail i j _ hstep ih =>
      obtain ⟨c, hc, hquote, hj⟩ := closingQuoteStep_moves hstep
      obtain ⟨hi, hci⟩ := List.getElem?_eq_some_iff.mp hc
      have hunits : Units (s.take i) := ih.2.resolve_right (by omega)
      rcases hj with ⟨rfl, hnext, rfl⟩ | ⟨hback, rfl⟩
      · refine ⟨by omega, .inl ?_⟩
        rw [List.take_add_one, List.take_add_one, List.append_assoc,
          List.getElem?_eq_getElem hnext, hc]
        exact hunits.append (.escaped .nil)
      · refine ⟨by omega, ?_⟩
        by_cases hc' : c = backslash
        · have := hback hc'
          exact .inr (by omega)
        · rw [List.take_add_one, hc]
          exact .inl (hunits.append (.plain hquote hc' .nil))

theorem closingQuote_reaches (done : Bytes) {text rest : Bytes}
    (h : Units text) :
    Reaches (closingQuoteStep (done ++ text ++ quote :: rest))
      done.length (done ++ text).length := by
  induction h generalizing done with
  | nil => simpa using Relation.ReflTransGen.refl
  | @plain c text hquote hback _ ih =>
      have hstep : closingQuoteStep (done ++ c :: text ++ quote :: rest)
          done.length = .ok (some (done.length + 1)) := by
        simp [closingQuoteStep, View.get, hquote, hback]
      have hrest := ih (done ++ [c])
      simp only [List.append_assoc, List.singleton_append, List.length_append,
        List.length_cons, List.length_nil] at hrest
      refine .head hstep ?_
      simpa [Nat.add_assoc, Nat.add_comm] using hrest
  | @escaped c text _ ih =>
      have hstep : closingQuoteStep
          (done ++ backslash :: c :: text ++ quote :: rest) done.length =
            .ok (some (done.length + 2)) := by
        have hne : backslash ≠ quote := by decide
        simp [closingQuoteStep, View.get, hne]
      have hrest := ih (done ++ [backslash, c])
      refine .head hstep ?_
      simpa [Nat.add_assoc, Nat.add_comm] using hrest

theorem closingQuote_eq {text rest : Bytes} (h : Units text) :
    closingQuote (text ++ quote :: rest) = .ok text.length := by
  refine (loop_eq_ok_iff closingQuoteStep_size (by simp)).mpr ⟨?_, ?_⟩
  · exact closingQuote_reaches [] h
  · simp [closingQuoteStep, View.get]

theorem closingQuote_ends (s : Bytes) :
    ∃ i, closingQuote s = .ok i ∧
      (i < s.length →
        Units (s.take i) ∧ s = s.take i ++ quote :: s.drop (i + 1)) := by
  obtain ⟨i, hloop, hreach, hend⟩ :=
    loop_ends (closingQuoteStep_size (s := s)) closingQuoteStep_safe
      (show s.length - 0 < s.length + 1 by omega)
  refine ⟨i, hloop, ?_⟩
  intro hi
  have hunits := (closingQuote_passes hreach).2.resolve_right (by omega)
  have hquote := (closingQuoteStep_ends hend).resolve_left (by omega)
  refine ⟨hunits, ?_⟩
  have hget : s[i] = quote := by
    simpa [List.getElem?_eq_getElem hi] using hquote
  rw [← hget, ← List.drop_eq_getElem_cons hi, List.take_append_drop]

end ClosingQuote

theorem parseQuoted_of_trimStart {s view : Bytes}
    (h : trimStart s = quote :: view) :
    parseQuoted s = do
      let close ← closingQuote view
      if view.length ≤ close then
        return (none, view)
      return (some (view.take close), view.drop (close + 1)) := by
  have hne : (quote != quote) = false := rfl
  simp only [parseQuoted, skipWhitespace_eq, h, ok_bind,
    View.get_zero_cons, hne, View.removePrefix_one_cons]
  obtain ⟨close, hclose, _⟩ := closingQuote_ends view
  simp only [hclose, ok_bind]
  by_cases hle : view.length ≤ close
  · simp [hle]
  · have hlt : close + 1 ≤ view.length := by omega
    simp [hle, View.substr, View.removePrefix, hlt]

theorem parseQuoted_scans : Scans parseQuoted Quoted fun text => .ok text where
  reads := by
    intro s text rest hquoted
    obtain ⟨blank, hblank, hunits, rfl⟩ := hquoted
    have htrim : trimStart (blank ++ quote :: text ++ quote :: rest) =
        quote :: (text ++ quote :: rest) := by
      rw [List.append_assoc, trimStart_append hblank]
      exact trimStart_of_not _ rfl
    rw [parseQuoted_of_trimStart htrim, closingQuote_eq hunits]
    simp [Except.map]
  rejects := by
    intro s hnone
    cases htrim : trimStart s with
    | nil => exact ⟨[], by simp [parseQuoted, skipWhitespace_eq, htrim]⟩
    | cons c view =>
        by_cases hc : c = quote
        · subst hc
          rw [parseQuoted_of_trimStart htrim]
          obtain ⟨close, hclose, hfound⟩ := closingQuote_ends view
          rw [hclose, ok_bind]
          by_cases hle : view.length ≤ close
          · exact ⟨view, by rw [if_pos hle]; rfl⟩
          · obtain ⟨hunits, hview⟩ := hfound (by omega)
            obtain ⟨blank, hblank, hs⟩ :=
              (trimStart_eq_cons_iff (by rfl)).mp htrim
            have hquoted : Quoted s (view.take close)
                (view.drop (close + 1)) := by
              refine ⟨blank, hblank, hunits, ?_⟩
              rw [hs, List.append_assoc, List.cons_append, ← hview]
            exact absurd hquoted (hnone _ _)
        · exact ⟨c :: view, by
            simp [parseQuoted, skipWhitespace_eq, htrim, hc]⟩

/-! Digits. -/

theorem digitsStep_size {s : Bytes} (i j : Nat)
    (h : digitsStep s i = .ok (some j)) : s.length - j < s.length - i := by
  unfold digitsStep at h
  split at h
  · next hi =>
      simp only [View.get, List.getElem?_eq_getElem hi, ok_bind] at h
      split at h
      · simp only [pure_eq_ok, Except.ok.injEq, Option.some.injEq] at h
        omega
      · simp at h
  · simp at h

theorem digitsEnd_eq (done rest : Bytes) :
    digitsEnd (done ++ rest) done.length =
      .ok (done ++ rest.takeWhile isDigit).length := by
  refine (loop_eq_ok_iff digitsStep_size (by omega)).mpr ?_
  induction rest generalizing done with
  | nil => simp [digitsStep, Relation.ReflTransGen.refl]
  | cons c rest ih =>
      cases hdigit : isDigit c with
      | false =>
          simp [digitsStep, View.get, hdigit, Relation.ReflTransGen.refl]
      | true =>
          have hstep : digitsStep (done ++ c :: rest) done.length =
              .ok (some (done.length + 1)) := by
            simp [digitsStep, View.get, hdigit]
          have hrest := ih (done ++ [c])
          simp only [List.append_assoc, List.singleton_append,
            List.length_append, List.length_singleton] at hrest
          rw [List.takeWhile_cons_of_pos hdigit]
          refine ⟨.head hstep ?_, ?_⟩
          · simpa [Nat.add_assoc, Nat.add_comm] using hrest.1
          · simpa [Nat.add_assoc, Nat.add_comm] using hrest.2

theorem split_digits (done rest : Bytes) :
    done ++ rest =
      (done ++ rest.takeWhile isDigit) ++ rest.dropWhile isDigit := by
  rw [List.append_assoc, List.takeWhile_append_dropWhile]

theorem substr_digits (done rest : Bytes) :
    View.substr 0 (done ++ rest.takeWhile isDigit).length (done ++ rest) =
      .ok (done ++ rest.takeWhile isDigit) := by
  nth_rewrite 2 [split_digits]
  exact View.substr_append _ _

theorem removePrefix_digits (done rest : Bytes) :
    View.removePrefix (done ++ rest.takeWhile isDigit).length
      (done ++ rest) = .ok (rest.dropWhile isDigit) := by
  nth_rewrite 2 [split_digits]
  exact View.removePrefix_append _ _

/-- The sign in front of a number. -/
structure SignOf (sign rest : Bytes) : Prop where
  cases : sign = [minus] ∨ sign = [] ∧ rest.head? ≠ some minus

theorem digitsStart_eq {sign rest : Bytes} (h : SignOf sign rest) :
    digitsStart (sign ++ rest) = .ok sign.length := by
  rcases h.cases with rfl | ⟨rfl, hhead⟩
  · simp [digitsStart]
  · cases rest with
    | nil => simp [digitsStart]
    | cons c rest =>
        have hne : c ≠ minus := by simpa using hhead
        simp [digitsStart, hne]

theorem parseIntValue_of_trimStart {s sign rest : Bytes}
    (h : trimStart s = sign ++ rest) (hsign : SignOf sign rest) :
    parseIntValue s =
      if rest.takeWhile isDigit = [] then
        .ok (none, sign ++ rest)
      else
        (stoll (sign ++ rest.takeWhile isDigit)).map fun value =>
          (some value, rest.dropWhile isDigit) := by
  simp only [parseIntValue, skipWhitespace_eq, h, ok_bind,
    digitsStart_eq hsign]
  cases rest with
  | nil => simp
  | cons c rest =>
      have hget : View.get (sign ++ c :: rest) sign.length = .ok c :=
        View.get_append_cons sign c rest
      have hlt : ¬(sign ++ c :: rest).length ≤ sign.length := by simp
      cases hdigit : isDigit c with
      | false => simp [hget, hdigit]
      | true =>
          have hne : (c :: rest).takeWhile isDigit ≠ [] := by simp [hdigit]
          rw [if_neg hlt, if_neg hne]
          simp only [hget, hdigit, ok_bind, digitsEnd_eq,
            substr_digits, removePrefix_digits]
          cases stoll (sign ++ (c :: rest).takeWhile isDigit) <;> rfl

theorem parseUintValue_of_trimStart {s rest : Bytes}
    (h : trimStart s = rest) :
    parseUintValue s =
      if rest.takeWhile isDigit = [] then
        .ok (none, rest)
      else
        (stoull (rest.takeWhile isDigit)).map fun value =>
          (some value, rest.dropWhile isDigit) := by
  simp only [parseUintValue, skipWhitespace_eq, h, ok_bind]
  cases rest with
  | nil => simp
  | cons c rest =>
      cases hdigit : isDigit c with
      | false => simp [hdigit]
      | true =>
          have hne : (c :: rest).takeWhile isDigit ≠ [] := by simp [hdigit]
          have hstop := digitsEnd_eq [] (c :: rest)
          have hsubstr := substr_digits [] (c :: rest)
          have hremove := removePrefix_digits [] (c :: rest)
          simp only [List.nil_append, List.length_nil] at hstop hsubstr hremove
          rw [if_neg hne]
          simp only [View.get_zero_cons, hdigit, ok_bind, hstop, hsubstr,
            hremove]
          cases stoull ((c :: rest).takeWhile isDigit) <;> rfl

theorem Digits.exists_cons {digits : Bytes} (h : Digits digits) :
    ∃ c tail, digits = c :: tail ∧ isDigit c = true := by
  cases digits with
  | nil => exact absurd rfl h.nonempty
  | cons c tail => exact ⟨c, tail, rfl, h.all c (List.mem_cons_self)⟩

theorem Digits.exists_concat {digits : Bytes} (h : Digits digits) :
    ∃ init c, digits = init ++ [c] ∧ isDigit c = true :=
  ⟨digits.dropLast, digits.getLast h.nonempty,
    (List.dropLast_append_getLast h.nonempty).symm,
    h.all _ (List.getLast_mem h.nonempty)⟩

theorem digits_of_takeWhile {rest : Bytes}
    (h : rest.takeWhile isDigit ≠ []) :
    Digits (rest.takeWhile isDigit) ∧
      ∀ c ∈ (rest.dropWhile isDigit).head?, isDigit c = false := by
  exact ⟨⟨h, fun c hc => List.mem_takeWhile_imp hc⟩,
    head?_dropWhile isDigit rest⟩

theorem parseUintValue_scans :
    Scans parseUintValue Unsigned fun text => some <$> stoull text where
  reads := by
    intro s text rest hnumber
    obtain ⟨blank, hblank, hdigits, hrest, rfl⟩ := hnumber
    have htrim : trimStart (blank ++ text ++ rest) = text ++ rest := by
      obtain ⟨c, tail, rfl, hc⟩ := hdigits.exists_cons
      rw [List.append_assoc, trimStart_append hblank]
      exact trimStart_of_not _ (isDigit_not_whitespace hc)
    rw [parseUintValue_of_trimStart htrim, takeWhile_span hdigits.all hrest,
      dropWhile_span hdigits.all hrest, if_neg hdigits.nonempty]
    cases stoull text <;> rfl
  rejects := by
    intro s hnone
    refine ⟨trimStart s, ?_⟩
    rw [parseUintValue_of_trimStart rfl]
    by_cases hempty : (trimStart s).takeWhile isDigit = []
    · rw [if_pos hempty]
    · obtain ⟨hdigits, hrest⟩ := digits_of_takeWhile hempty
      obtain ⟨blank, hblank, hs⟩ := exists_blank s
      refine absurd ⟨blank, hblank, hdigits, hrest, ?_⟩ (hnone _ _)
      rw [List.append_assoc, List.takeWhile_append_dropWhile]
      exact hs

theorem exists_sign (s : Bytes) :
    ∃ sign rest, s = sign ++ rest ∧ SignOf sign rest := by
  by_cases hhead : s.head? = some minus
  · cases s with
    | nil => contradiction
    | cons c s =>
        obtain rfl : c = minus := by simpa using hhead
        exact ⟨[minus], s, rfl, ⟨.inl rfl⟩⟩
  · exact ⟨[], s, rfl, ⟨.inr ⟨rfl, hhead⟩⟩⟩

theorem parseIntValue_scans :
    Scans parseIntValue Signed fun text => some <$> stoll text where
  reads := by
    intro s text rest hnumber
    obtain ⟨blank, sign, digits, hblank, hsign, hdigits, rfl, hrest, rfl⟩ :=
      hnumber
    obtain ⟨c, tail, hcons, hc⟩ := hdigits.exists_cons
    have htrim : trimStart (blank ++ (sign ++ digits) ++ rest) =
        sign ++ (digits ++ rest) := by
      rw [List.append_assoc, trimStart_append hblank, List.append_assoc]
      rcases hsign with rfl | rfl
      · exact trimStart_of_not _ rfl
      · rw [hcons]
        exact trimStart_of_not _ (isDigit_not_whitespace hc)
    have hsignOf : SignOf sign (digits ++ rest) := by
      refine ⟨hsign.imp_right fun hnil => ⟨hnil, ?_⟩⟩
      rw [hcons]
      simpa using isDigit_ne_minus hc
    rw [parseIntValue_of_trimStart htrim hsignOf,
      takeWhile_span hdigits.all hrest, dropWhile_span hdigits.all hrest,
      if_neg hdigits.nonempty]
    cases stoll (sign ++ digits) <;> rfl
  rejects := by
    intro s hnone
    obtain ⟨sign, rest, hsplit, hsign⟩ := exists_sign (trimStart s)
    refine ⟨sign ++ rest, ?_⟩
    rw [parseIntValue_of_trimStart hsplit hsign]
    by_cases hempty : rest.takeWhile isDigit = []
    · rw [if_pos hempty]
    · obtain ⟨hdigits, hrest⟩ := digits_of_takeWhile hempty
      obtain ⟨blank, hblank, hs⟩ := exists_blank s
      refine absurd ⟨blank, sign, _, hblank, hsign.cases.imp_right And.left,
        hdigits, rfl, hrest, ?_⟩ (hnone _ _)
      rw [List.append_assoc, List.append_assoc,
        List.takeWhile_append_dropWhile, ← hsplit]
      exact hs

/-! The two narrow integers. -/

def narrow {α β : Type} (inRange : α → Bool) (cast : α → β) (value : α) :
    Option β :=
  if inRange value then some (cast value) else none

theorem Scans.narrow {α β : Type}
    {scan : Bytes → Except Fault (Option α × Bytes)}
    {token : Bytes → Bytes → Bytes → Prop}
    {convert : Bytes → Except Fault (Option α)}
    (h : Scans scan token convert) (inRange : α → Bool) (cast : α → β) :
    Scans (parseNarrow scan inRange cast) token fun text =>
      (Option.bind · (Gov.narrow inRange cast)) <$> convert text where
  reads := by
    intro s text rest htoken
    simp only [parseNarrow, h.reads htoken]
    cases convert text with
    | error f => rfl
    | ok found =>
        cases found with
        | none => rfl
        | some value =>
            cases hrange : inRange value <;>
              simp [Except.map, Gov.narrow, hrange]
  rejects := by
    intro s hnone
    obtain ⟨left, hreject⟩ := h.rejects hnone
    exact ⟨left, by simp [parseNarrow, hreject]⟩

theorem consumeColon_of_colon {s rest : Bytes} (h : Colon s rest) :
    consumeColon s = .ok (true, rest) := by
  obtain ⟨blank, hblank, rfl⟩ := h
  have htrim : trimStart (blank ++ colon :: rest) = colon :: rest := by
    rw [trimStart_append hblank]
    exact trimStart_of_not _ rfl
  simp [consumeColon, skipWhitespace_eq, htrim]

theorem consumeColon_cases (s : Bytes) :
    (∃ rest, Colon s rest ∧ consumeColon s = .ok (true, rest)) ∨
      ∃ left, consumeColon s = .ok (false, left) := by
  cases htrim : trimStart s with
  | nil =>
      exact .inr ⟨[], by simp [consumeColon, skipWhitespace_eq, htrim]⟩
  | cons c rest =>
      by_cases hc : c = colon
      · subst hc
        have hcolon : Colon s rest := (trimStart_eq_cons_iff (by rfl)).mp htrim
        exact .inl ⟨rest, hcolon, consumeColon_of_colon hcolon⟩
      · exact .inr ⟨c :: rest, by
          simp [consumeColon, skipWhitespace_eq, htrim, hc]⟩

end HeidiKernel.Gov
