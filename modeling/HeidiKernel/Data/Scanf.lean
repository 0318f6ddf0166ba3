import HeidiKernel.Data.Literal

namespace HeidiKernel.Data.Numeric

/-! Integers as `strtol` and `sscanf` read them. -/

/-- The longest integer a text starts with, blanks aside, and what follows
it. -/
def readInteger? (text : Bytes) : Option (Int × Bytes) :=
  let (negative, rest) := readSign (text.dropWhile isSpace)
  let digits := rest.takeWhile isDigit
  if digits = [] then
    none
  else
    let n : Int := natOfDigits 10 digits
    some (if negative then -n else n, rest.dropWhile isDigit)

/-- A `long` holds the nearest number it can. -/
def clampLong (n : Int) : Int := max (-2 ^ 63) (min n (2 ^ 63 - 1))

/-- The value, and where `endptr` points to. -/
def strtol (text : Bytes) : Int × Bytes :=
  match readInteger? text with
  | none => (0, text)
  | some (n, rest) => (clampLong n, rest)

/-- A `long` cut to an `int`. -/
def asInt (n : Int) : Int32 := Int32.ofInt (clampLong n)

/-- `%d` -/
def scanInt (text : Bytes) : Option (Int32 × Bytes) :=
  (readInteger? text).map fun (n, rest) => (asInt n, rest)

/-- `%*c` -/
def scanChar : Bytes → Option Bytes
  | [] => none
  | _ :: rest => some rest

/-- What `fgets` stores in a buffer with room for `n` bytes and the NUL. -/
def fgets : Nat → Bytes → Bytes
  | 0, _ | _ + 1, [] => []
  | n + 1, c :: rest => if c = 0x0a then [c] else c :: fgets n rest

theorem asInt_of_range {n : Int} (hlow : -2 ^ 31 ≤ n) (hhigh : n < 2 ^ 31) :
    (asInt n).toInt = n := by
  have hclamp : clampLong n = n := by
    rw [clampLong]
    omega
  rw [asInt, hclamp]
  exact Int32.toInt_ofInt_of_le hlow hhigh

theorem fgets_line {n : Nat} {line : Bytes} (h : 0x0a ∉ line)
    (hlength : line.length < n) (rest : Bytes) :
    fgets n (line ++ 0x0a :: rest) = line ++ [0x0a] := by
  induction line generalizing n with
  | nil =>
      obtain ⟨m, rfl⟩ := Nat.exists_eq_succ_of_ne_zero (Nat.ne_of_gt hlength)
      rw [List.nil_append, fgets, if_pos rfl, List.nil_append]
  | cons c line ih =>
      obtain ⟨m, rfl⟩ := Nat.exists_eq_succ_of_ne_zero
        (Nat.ne_of_gt (Nat.zero_lt_of_lt hlength))
      rw [List.mem_cons, not_or] at h
      rw [List.cons_append, fgets, if_neg (Ne.symm h.1),
        ih h.2 (Nat.lt_of_succ_lt_succ hlength), List.cons_append]

theorem fgets_eq_self {n : Nat} {text : Bytes} (h : 0x0a ∉ text.dropLast)
    (hlength : text.length ≤ n) : fgets n text = text := by
  induction text generalizing n with
  | nil => cases n <;> rfl
  | cons c text ih =>
      obtain ⟨m, rfl⟩ := Nat.exists_eq_succ_of_ne_zero
        (Nat.ne_of_gt (Nat.zero_lt_of_lt hlength))
      cases text with
      | nil =>
          rw [fgets]
          split
          · rfl
          · cases m <;> rfl
      | cons next text =>
          rw [List.dropLast_cons_cons, List.mem_cons, not_or] at h
          rw [fgets, if_neg (Ne.symm h.1),
            ih h.2 (Nat.le_of_succ_le_succ hlength)]

/-! Reading takes all digits there are. -/

/-- A sign in front of digits makes a literal. -/
theorem exists_literal {text digits rest : Bytes} {negative : Bool}
    (h : DigitText digits)
    (hsign : Numeric.readSign text = (negative, digits ++ rest)) :
    ∃ literal, text = literal ++ rest ∧
      Literal literal (if negative then -(natOfDigits 10 digits : Int)
        else natOfDigits 10 digits) := by
  cases text with
  | nil =>
      obtain ⟨_, hnil⟩ := Prod.mk.inj hsign
      exact absurd (List.append_eq_nil_iff.mp hnil.symm).1 h.nonempty
  | cons c text =>
      rw [readSign] at hsign
      split at hsign
      · rename_i hminus
        obtain ⟨rfl, rfl⟩ := Prod.mk.inj hsign
        exact ⟨0x2d :: digits, by rw [hminus]; rfl, .minus h⟩
      · split at hsign
        · rename_i hplus
          obtain ⟨rfl, rfl⟩ := Prod.mk.inj hsign
          exact ⟨0x2b :: digits, by rw [hplus]; rfl, .plus h⟩
        · obtain ⟨rfl, htext⟩ := Prod.mk.inj hsign
          exact ⟨digits, htext, .unsigned h⟩

theorem Literal.exists_cons {text : Bytes} {n : Int} (h : Literal text n) :
    ∃ c tail, text = c :: tail ∧ isSpace c = false := by
  cases h with
  | plus h => exact ⟨0x2b, _, rfl, rfl⟩
  | minus h => exact ⟨0x2d, _, rfl, rfl⟩
  | unsigned h =>
      obtain ⟨d, tail, rfl⟩ := List.exists_cons_of_ne_nil h.nonempty
      exact ⟨d, tail, rfl, not_isSpace_of_isDigit (h.all d List.mem_cons_self)⟩

theorem Literal.readSign {text : Bytes} {n : Int} (h : Literal text n)
    (rest : Bytes) :
    ∃ negative digits, DigitText digits ∧
      Numeric.readSign (text ++ rest) = (negative, digits ++ rest) ∧
      n = if negative then -(natOfDigits 10 digits : Int)
        else natOfDigits 10 digits := by
  cases h with
  | plus h => exact ⟨false, _, h, rfl, rfl⟩
  | minus h => exact ⟨true, _, h, rfl, rfl⟩
  | unsigned h =>
      refine ⟨false, text, h, ?_, rfl⟩
      obtain ⟨d, tail, rfl⟩ := List.exists_cons_of_ne_nil h.nonempty
      exact readSign_digits (h.all d List.mem_cons_self) _

/-- A text starts with an integer, blanks aside, that ends where the digits
do. -/
def StartsWith (text : Bytes) (n : Int) (rest : Bytes) : Prop :=
  ∃ blanks literal, (∀ c ∈ blanks, isSpace c = true) ∧ Literal literal n ∧
    (∀ c ∈ rest.head?, isDigit c = false) ∧ text = blanks ++ (literal ++ rest)

theorem readInteger?_eq_some_iff {text rest : Bytes} {n : Int} :
    readInteger? text = some (n, rest) ↔ StartsWith text n rest := by
  constructor
  · intro h
    rw [readInteger?] at h
    cases hsign : readSign (text.dropWhile isSpace) with
    | mk negative digits =>
        rw [hsign] at h
        simp only at h
        split at h
        · cases h
        · rename_i hne
          obtain ⟨rfl, rfl⟩ := Prod.mk.inj (Option.some.inj h)
          have hall : DigitText (digits.takeWhile isDigit) :=
            ⟨hne, fun c hc => List.mem_takeWhile_imp hc⟩
          rw [← List.takeWhile_append_dropWhile (p := isDigit) (l := digits)]
            at hsign
          obtain ⟨literal, htext, hliteral⟩ := exists_literal hall hsign
          refine ⟨text.takeWhile isSpace, literal,
            fun c hc => List.mem_takeWhile_imp hc, hliteral,
            head?_dropWhile isDigit digits, ?_⟩
          rw [← htext, List.takeWhile_append_dropWhile]
  · intro h
    obtain ⟨blanks, literal, hblanks, hliteral, hends, rfl⟩ := h
    obtain ⟨c, tail, hcons, hc⟩ := hliteral.exists_cons
    have hskip : (blanks ++ (literal ++ rest)).dropWhile isSpace =
        literal ++ rest := by
      rw [hcons, List.cons_append, dropWhile_span_cons hblanks hc]
    obtain ⟨negative, digits, hdigits, hsign, rfl⟩ := hliteral.readSign rest
    have htake := takeWhile_span hdigits.all hends
    have hdrop := dropWhile_span hdigits.all hends
    rw [readInteger?, hskip, hsign]
    simp only [htake, hdrop, if_neg hdigits.nonempty]

theorem scanInt_eq_some_iff {text rest : Bytes} {value : Int32} :
    scanInt text = some (value, rest) ↔
      ∃ n, StartsWith text n rest ∧ asInt n = value := by
  rw [scanInt, Option.map_eq_some_iff]
  constructor
  · intro h
    obtain ⟨⟨n, rest'⟩, hread, hvalue⟩ := h
    obtain ⟨rfl, rfl⟩ := Prod.mk.inj hvalue
    exact ⟨n, readInteger?_eq_some_iff.mp hread, rfl⟩
  · intro h
    obtain ⟨n, hread, rfl⟩ := h
    exact ⟨(n, rest), readInteger?_eq_some_iff.mpr hread, rfl⟩

/-- A blank in a format skips no more than the number behind it does. -/
theorem scanInt_dropWhile (text : Bytes) :
    scanInt (text.dropWhile isSpace) = scanInt text := by
  have hskip : (text.dropWhile isSpace).dropWhile isSpace =
      text.dropWhile isSpace :=
    List.dropWhile_idempotent _ _
  rw [scanInt, readInteger?, hskip, scanInt, readInteger?]

theorem scanChar_dropWhile {text rest : Bytes} :
    scanChar (text.dropWhile isSpace) = some rest ↔
      ∃ blanks c, (∀ b ∈ blanks, isSpace b = true) ∧ isSpace c = false ∧
        text = blanks ++ c :: rest := by
  constructor
  · intro h
    cases hskip : text.dropWhile isSpace with
    | nil =>
        rw [hskip] at h
        cases h
    | cons c tail =>
        rw [hskip] at h
        obtain rfl := Option.some.inj h
        have hnot := head?_dropWhile isSpace text
        rw [hskip] at hnot
        refine ⟨text.takeWhile isSpace, c,
          fun b hb => List.mem_takeWhile_imp hb, hnot c rfl, ?_⟩
        rw [← hskip, List.takeWhile_append_dropWhile]
  · intro h
    obtain ⟨blanks, c, hblanks, hc, rfl⟩ := h
    rw [dropWhile_span_cons hblanks hc]
    rfl

end HeidiKernel.Data.Numeric
