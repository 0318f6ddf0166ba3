import HeidiKernel.Data.Numeric
import HeidiKernel.Data.Span
import Mathlib.Data.List.TakeDrop

namespace HeidiKernel.Data

namespace Numeric

/-! The number writers of the standard library, and that its readers read the
numbers back. -/

def print (base n : Nat) : Bytes := (Nat.toDigits base n).map Char.toUInt8

def printInt (n : Int) : Bytes :=
  if n < 0 then 0x2d :: print 10 n.natAbs else print 10 n.natAbs

theorem digitValue_digitChar {d : Nat} (h : d < 16) :
    digitValue d.digitChar.toUInt8 = d :=
  (by decide : ∀ d < 16, digitValue (Nat.digitChar d).toUInt8 = d) d h

theorem isDigit_digitChar {d : Nat} (h : d < 10) :
    isDigit d.digitChar.toUInt8 = true :=
  (by decide : ∀ d < 10, isDigit (Nat.digitChar d).toUInt8 = true) d h

theorem print_ne_nil (base n : Nat) : print base n ≠ [] := by
  simp [print]

theorem printInt_ne_nil (n : Int) : printInt n ≠ [] := by
  unfold printInt
  split
  · exact List.cons_ne_nil _ _
  · exact print_ne_nil 10 _

theorem print_of_lt {base n : Nat} (h : n < base) :
    print base n = [n.digitChar.toUInt8] := by
  rw [print, Nat.toDigits_of_lt_base h]
  rfl

theorem print_of_le {base n : Nat} (hbase : 1 < base) (h : base ≤ n) :
    print base n =
      print base (n / base) ++ [(n % base).digitChar.toUInt8] := by
  rw [print, Nat.toDigits_of_base_le hbase h, List.map_append]
  rfl

theorem natOfDigits_concat (base : Nat) (front : Bytes) (c : UInt8) :
    natOfDigits base (front ++ [c]) =
      base * natOfDigits base front + digitValue c := by
  simp [natOfDigits]

theorem natOfDigits_print {base : Nat} (hbase : 1 < base) (hlarge : base ≤ 16)
    (n : Nat) : natOfDigits base (print base n) = n := by
  induction n using Nat.strong_induction_on with
  | _ n ih =>
      rcases Nat.lt_or_ge n base with hlt | hge
      · rw [print_of_lt hlt]
        change base * 0 + digitValue n.digitChar.toUInt8 = n
        rw [digitValue_digitChar (by omega), Nat.mul_zero, Nat.zero_add]
      · have hless : n / base < n := Nat.div_lt_self (by omega) hbase
        have hdigit : n % base < 16 := by
          have := Nat.mod_lt n (show 0 < base by omega)
          omega
        rw [print_of_le hbase hge, natOfDigits_concat, ih _ hless,
          digitValue_digitChar hdigit]
        exact Nat.div_add_mod n base

theorem print_injective {base : Nat} (hbase : 1 < base) (hlarge : base ≤ 16) :
    Function.Injective (print base) := by
  intro m n h
  rw [← natOfDigits_print hbase hlarge m, h, natOfDigits_print hbase hlarge]

theorem isDigit_print (n : Nat) : ∀ c ∈ print 10 n, isDigit c = true := by
  induction n using Nat.strong_induction_on with
  | _ n ih =>
      intro c hc
      rcases Nat.lt_or_ge n 10 with hlt | hge
      · rw [print_of_lt hlt, List.mem_singleton] at hc
        rw [hc]
        exact isDigit_digitChar hlt
      · rw [print_of_le (by decide) hge, List.mem_append,
          List.mem_singleton] at hc
        rcases hc with hfront | hlast
        · exact ih (n / 10) (by omega) c hfront
        · rw [hlast]
          exact isDigit_digitChar (Nat.mod_lt n (by decide))

theorem isDigit_bounds {c : UInt8} (h : isDigit c = true) :
    0x30 ≤ c ∧ c ≤ 0x39 := by
  simpa [isDigit] using h

theorem ne_of_isDigit {c d : UInt8} (h : isDigit c = true)
    (hd : isDigit d = false) : c ≠ d := by
  intro hsame
  rw [hsame, hd] at h
  cases h

/-- No blank comes after the space. -/
theorem not_isSpace_of_lt {c : UInt8} (h : 0x20 < c) : isSpace c = false := by
  rw [UInt8.lt_iff_toNat_lt] at h
  change 0x20 < c.toNat at h
  have hvalue : c.toNat ≠ 0x20 ∧ ¬c.toNat ≤ 0x0d := by omega
  simp only [isSpace, Bool.or_eq_false_iff, decide_eq_false_iff_not,
    Bool.and_eq_false_iff, UInt8.le_iff_toNat_le]
  refine ⟨?_, .inr hvalue.2⟩
  intro hsame
  exact hvalue.1 (by rw [hsame]; rfl)

theorem not_isSpace_of_isDigit {c : UInt8} (h : isDigit c = true) :
    isSpace c = false :=
  not_isSpace_of_lt (UInt8.lt_of_lt_of_le (by decide) (isDigit_bounds h).1)

theorem not_isDigit_of_isSpace {c : UInt8} (h : isSpace c = true) :
    isDigit c = false := by
  cases hdigit : isDigit c with
  | false => rfl
  | true =>
      rw [not_isSpace_of_isDigit hdigit] at h
      cases h

theorem readSign_digits {c : UInt8} (h : isDigit c = true) (rest : Bytes) :
    readSign (c :: rest) = (false, c :: rest) := by
  rw [readSign, if_neg (ne_of_isDigit h rfl), if_neg (ne_of_isDigit h rfl)]

/-- Blanks before a run of digits are skipped, and what follows the digits is
ignored. -/
theorem readDecimal?_digits {blanks digits rest : Bytes}
    (hblanks : ∀ c ∈ blanks, isSpace c = true)
    (hdigits : ∀ c ∈ digits, isDigit c = true) (hne : digits ≠ [])
    (hrest : ∀ c ∈ rest.head?, isDigit c = false) :
    readDecimal? (blanks ++ digits ++ rest) =
      some (false, natOfDigits 10 digits) := by
  obtain ⟨d, digits, rfl⟩ := List.exists_cons_of_ne_nil hne
  have hd : isDigit d = true := hdigits d (List.mem_cons_self)
  have hskip : (blanks ++ (d :: digits) ++ rest).dropWhile isSpace =
      d :: digits ++ rest := by
    rw [List.append_assoc]
    exact dropWhile_span_cons hblanks (not_isSpace_of_isDigit hd) _
  have hkept := takeWhile_span hdigits hrest
  rw [List.cons_append] at hkept
  rw [readDecimal?, hskip, List.cons_append, readSign_digits hd]
  simp only [hkept]
  rfl

theorem isDigit_head?_nil : ∀ c ∈ ([] : Bytes).head?, isDigit c = false := by
  simp

theorem stoi_digits {digits : Bytes}
    (hdigits : ∀ c ∈ digits, isDigit c = true) (hne : digits ≠ [])
    (hsmall : natOfDigits 10 digits < 2 ^ 31) :
    ∃ n, stoi digits = .ok n ∧ n.toInt = natOfDigits 10 digits := by
  have hread := readDecimal?_digits (List.forall_mem_nil _) hdigits hne
    isDigit_head?_nil
  rw [List.nil_append, List.append_nil] at hread
  have hlow : -2 ^ 31 ≤ (natOfDigits 10 digits : Int) := by omega
  have hhigh : (natOfDigits 10 digits : Int) < 2 ^ 31 := by omega
  refine ⟨Int32.ofInt (natOfDigits 10 digits), ?_,
    Int32.toInt_ofInt_of_le hlow hhigh⟩
  rw [stoi, hread]
  simp only [Bool.false_eq_true, if_false, if_pos (And.intro hlow hhigh)]

section Read

variable {blanks rest : Bytes} (hblanks : ∀ c ∈ blanks, isSpace c = true)
  (hrest : ∀ c ∈ rest.head?, isDigit c = false)

include hblanks hrest

theorem readDecimal?_print (n : Nat) :
    readDecimal? (blanks ++ print 10 n ++ rest) = some (false, n) := by
  rw [readDecimal?_digits hblanks (isDigit_print n) (print_ne_nil 10 n) hrest,
    natOfDigits_print (by decide) (by decide)]

theorem stoi_print {n : Int32} (h : 0 ≤ n.toInt) :
    stoi (blanks ++ printInt n.toInt ++ rest) = .ok n := by
  have habs : ((n.toInt.natAbs : Nat) : Int) = n.toInt :=
    Int.natAbs_of_nonneg h
  have hlow := Int32.le_toInt n
  have hhigh := Int32.toInt_lt n
  rw [printInt, if_neg (by omega), stoi,
    readDecimal?_print hblanks hrest]
  simp only [Bool.false_eq_true, if_false, habs, if_pos (And.intro hlow hhigh),
    Int32.ofInt_toInt]

theorem stoull_print (n : UInt64) :
    stoull (blanks ++ print 10 n.toNat ++ rest) = .ok n := by
  rw [stoull, readDecimal?_print hblanks hrest]
  simp only [if_pos n.toNat_lt, Bool.false_eq_true, if_false,
    UInt64.ofNat_toNat]

end Read

end Numeric

/-! Output streams with the state their manipulators leave behind. A width
holds for the next item only, the base and the fill from then on. -/

structure OStream where
  text : Bytes := []
  hex : Bool := false
  width : Nat := 0
  fill : UInt8 := 0x20
  deriving DecidableEq, Repr

namespace OStream

def put (item : Bytes) (oss : OStream) : OStream :=
  { oss with
    text := oss.text ++ List.replicate (oss.width - item.length) oss.fill ++ item
    width := 0 }

/-- In base sixteen the bits of an `int` are written. -/
def putInt (n : Int32) (oss : OStream) : OStream :=
  oss.put
    (if oss.hex then Numeric.print 16 n.toUInt32.toNat
    else Numeric.printInt n.toInt)

def setHex (oss : OStream) : OStream := { oss with hex := true }

def setWidth (width : Nat) (oss : OStream) : OStream := { oss with width }

def setFill (fill : UInt8) (oss : OStream) : OStream := { oss with fill }

@[simp] theorem width_put (item : Bytes) (oss : OStream) :
    (oss.put item).width = 0 := rfl

@[simp] theorem width_putInt (n : Int32) (oss : OStream) :
    (oss.putInt n).width = 0 := rfl

theorem text_put {oss : OStream} (h : oss.width = 0) (item : Bytes) :
    (oss.put item).text = oss.text ++ item := by
  rw [put, h, Nat.zero_sub, List.replicate_zero, List.append_nil]

end OStream

end HeidiKernel.Data
