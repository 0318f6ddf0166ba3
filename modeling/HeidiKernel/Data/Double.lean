import HeidiKernel.Data.Numeric
import Mathlib.Data.Int.Log
import Mathlib.Data.List.DropRight
import Mathlib.Data.NNRat.Floor
import Mathlib.Order.WithBot

namespace HeidiKernel.Data

/-! Binary floating point numbers of 64 bits, as the exact numbers they stand
for: how they are read from a text, compared and printed. -/

inductive Double
  | nan (negative : Bool)
  | inf (negative : Bool)
  | finite (negative : Bool) (magnitude : ℚ≥0)
  deriving DecidableEq

namespace Double

/-! Rounding to the nearest multiple of a power, ties to the even one. -/

def roundHalfEven (q : ℚ≥0) : Nat :=
  let n := ⌊q⌋₊
  let twice := ⌊2 * q⌋₊
  if twice = 2 * n then
    n
  else if 2 * q = twice ∧ n % 2 = 0 then
    n
  else
    n + 1

def roundAt (unit : ℚ≥0) (q : ℚ≥0) : ℚ≥0 := roundHalfEven (q / unit) * unit

/-- The unit in the last of 53 significant bits. -/
def lastPlace (q : ℚ≥0) : ℚ≥0 := 2 ^ (Int.log 2 q - 52)

def smallestUnit : ℚ≥0 := 2 ^ (-1074 : Int)

def smallestNormal : ℚ≥0 := 2 ^ (-1022 : Int)

/-- The first magnitude beyond the finite ones. -/
def bound : ℚ≥0 := 2 ^ 1024

def nearest (q : ℚ≥0) : ℚ≥0 :=
  if q = 0 then 0 else roundAt (max (lastPlace q) smallestUnit) q

def overflows (q : ℚ≥0) : Prop := bound ≤ nearest q

/-- The result is inexact, and tiny after rounding. -/
def underflows (q : ℚ≥0) : Prop :=
  q ≠ 0 ∧ roundAt (lastPlace q) q < smallestNormal ∧ nearest q ≠ q

instance (q : ℚ≥0) : Decidable (overflows q) :=
  inferInstanceAs (Decidable (_ ≤ _))

instance (q : ℚ≥0) : Decidable (underflows q) :=
  inferInstanceAs (Decidable (_ ∧ _))

def ofNNRat (negative : Bool) (q : ℚ≥0) : Double :=
  if overflows q then .inf negative else .finite negative (nearest q)

def ofNat (n : Nat) : Double := ofNNRat false n

def signed (negative : Bool) (magnitude : ℚ≥0) : ℚ :=
  if negative then -(magnitude : ℚ) else magnitude

/-- The rational number a finite double is. -/
def toRat? : Double → Option ℚ
  | .finite negative magnitude => some (signed negative magnitude)
  | .nan _ | .inf _ => none

def isNan : Double → Bool
  | .nan _ => true
  | .inf _ | .finite .. => false

/-- The place of a double that is not NaN among the extended rationals. -/
def place? : Double → Option (WithBot (WithTop ℚ))
  | .nan _ => none
  | .inf negative => some (if negative then ⊥ else ((⊤ : WithTop ℚ) : WithBot _))
  | .finite negative magnitude =>
      some ((signed negative magnitude : WithTop ℚ) : WithBot (WithTop ℚ))

/-- `a < b`, which is false whenever a NaN is compared. -/
def lt (a b : Double) : Bool :=
  match a.place?, b.place? with
  | some x, some y => decide (x < y)
  | _, _ => false

/-- `a <= b`, which is false whenever a NaN is compared. -/
def le (a b : Double) : Bool :=
  match a.place?, b.place? with
  | some x, some y => decide (x ≤ y)
  | _, _ => false

/-! Arithmetic on what the finite operands stand for. An operation on numbers
that has no value makes a NaN with the sign set. -/

def mul : Double → Double → Double
  | .nan negative, _ | _, .nan negative => .nan negative
  | .finite s x, .finite t y => ofNNRat (s != t) (x * y)
  | .inf s, .finite t y | .finite t y, .inf s =>
      if y = 0 then .nan true else .inf (s != t)
  | .inf s, .inf t => .inf (s != t)

def div : Double → Double → Double
  | .nan negative, _ | _, .nan negative => .nan negative
  | .finite s x, .finite t y =>
      if y ≠ 0 then
        ofNNRat (s != t) (x / y)
      else if x = 0 then
        .nan true
      else
        .inf (s != t)
  | .inf s, .finite t _ => .inf (s != t)
  | .finite s _, .inf t => .finite (s != t) 0
  | .inf _, .inf _ => .nan true

section Read

open Numeric

/-- How a notation writes magnitudes: its digits in a base, and an exponent
behind a mark that scales by a power of `scale`. A digit behind the point
counts as `perDigit` of these powers. -/
structure Notation where
  base : Nat
  isDigit : UInt8 → Bool
  mark : UInt8
  scale : ℚ≥0
  perDigit : Nat

def decimal : Notation where
  base := 10
  isDigit := Numeric.isDigit
  mark := 0x65
  scale := 10
  perDigit := 1

def hexadecimal : Notation where
  base := 16
  isDigit c := Numeric.isDigit c || (0x61 ≤ toLower c && toLower c ≤ 0x66)
  mark := 0x70
  scale := 2
  perDigit := 4

/-- The digits behind a point, and what follows them. -/
def Notation.readFraction (format : Notation) (text : Bytes) : Bytes × Bytes :=
  match text with
  | c :: rest =>
      if c = 0x2e then
        (rest.takeWhile format.isDigit, rest.dropWhile format.isDigit)
      else
        ([], c :: rest)
  | [] => ([], [])

/-- The exponent behind the mark, if there is a digit in it. -/
def Notation.readExponent (format : Notation) (text : Bytes) : Int :=
  match text with
  | c :: rest =>
      if toLower c = format.mark then
        let (negative, rest) := readSign rest
        let n := natOfDigits 10 (rest.takeWhile Numeric.isDigit)
        if negative then -n else n
      else
        0
  | [] => 0

def Notation.read? (format : Notation) (text : Bytes) : Option ℚ≥0 :=
  let whole := text.takeWhile format.isDigit
  let (fraction, rest) := format.readFraction (text.dropWhile format.isDigit)
  if whole ++ fraction = [] then
    none
  else
    let shift := format.readExponent rest - format.perDigit * fraction.length
    some (natOfDigits format.base (whole ++ fraction) * format.scale ^ shift)

def startsWith (word : String) (text : Bytes) : Bool :=
  (text.take (bytes word).length).map toLower = bytes word

/-- The magnitude behind `0x`, if there is a digit. -/
def readHexadecimal? (text : Bytes) : Option ℚ≥0 :=
  if startsWith "0x" text then hexadecimal.read? (text.drop 2) else none

/-- `std::stod`: what `strtod` reads, unless it reads nothing or leaves the
range of the normal numbers. -/
def stod (text : Bytes) : Except ConversionError Double :=
  let (negative, rest) := readSign (text.dropWhile isSpace)
  if startsWith "inf" rest then
    .ok (.inf negative)
  else if startsWith "nan" rest then
    .ok (.nan negative)
  else
    match (readHexadecimal? rest).or (decimal.read? rest) with
    | none => .error .invalidArgument
    | some q =>
        if overflows q ∨ underflows q then
          .error .outOfRange
        else
          .ok (.finite negative (nearest q))

end Read

section Print

/-- The digits of a positive number rounded to six, and the power of ten of the
first one. -/
def sixDigits (q : ℚ≥0) : Nat × Int :=
  let power := Int.log 10 q
  let n := roundHalfEven (q / 10 ^ (power - 5))
  if n = 10 ^ 6 then (10 ^ 5, power + 1) else (n, power)

/-- Behind a point, zeros at the end are not written, nor the point alone. -/
def pointed (fraction : List Char) : List Char :=
  let kept := fraction.rdropWhile (· = '0')
  if kept = [] then [] else '.' :: kept

def printMagnitude (q : ℚ≥0) : List Char :=
  if q = 0 then
    ['0']
  else
    let (n, power) := sixDigits q
    let digits := Nat.toDigits 10 n
    if 0 ≤ power ∧ power < 6 then
      let whole := power.toNat + 1
      digits.take whole ++ pointed (digits.drop whole)
    else if -4 ≤ power ∧ power < 0 then
      '0' :: pointed (List.replicate (-power - 1).toNat '0' ++ digits)
    else
      let exponent := Nat.toDigits 10 power.natAbs
      digits.take 1 ++ pointed (digits.drop 1) ++
        ['e', if power < 0 then '-' else '+'] ++
        (if exponent.length < 2 then '0' :: exponent else exponent)

/-- What an output stream writes, with its precision of six digits. -/
def print (x : Double) : Bytes :=
  let sign := fun negative : Bool => if negative then "-" else ""
  match x with
  | .nan negative => bytes (sign negative ++ "nan")
  | .inf negative => bytes (sign negative ++ "inf")
  | .finite negative q =>
      bytes (sign negative ++ String.ofList (printMagnitude q))

end Print

/-! Small natural numbers are represented exactly. -/

theorem roundHalfEven_natCast (n : Nat) : roundHalfEven (n : ℚ≥0) = n := by
  have htwice : ⌊2 * (n : ℚ≥0)⌋₊ = 2 * n := by
    rw [← Nat.cast_ofNat, ← Nat.cast_mul, Nat.floor_natCast]
  simp [roundHalfEven, htwice]

theorem roundAt_mul {unit : ℚ≥0} (hunit : unit ≠ 0) (n : Nat) :
    roundAt unit (n * unit) = n * unit := by
  rw [roundAt, mul_div_cancel_right₀ _ hunit, roundHalfEven_natCast]

theorem exists_unit {n : Nat} (h : n < 2 ^ 53) :
    ∃ k : Nat, max (lastPlace (n : ℚ≥0)) smallestUnit = (2 ^ k)⁻¹ := by
  have hlog : Int.log 2 (n : ℚ≥0) ≤ 52 := by
    rw [Int.log_natCast]
    exact_mod_cast Nat.le_of_lt_succ (Nat.log_lt_of_lt_pow' (by decide) h)
  rcases max_choice (lastPlace (n : ℚ≥0)) smallestUnit with hmax | hmax
  · refine ⟨(52 - Int.log 2 (n : ℚ≥0)).toNat, ?_⟩
    rw [hmax, lastPlace, ← zpow_natCast, ← zpow_neg]
    congr 1
    omega
  · refine ⟨1074, ?_⟩
    rw [hmax, smallestUnit, zpow_neg]
    norm_cast

theorem nearest_natCast {n : Nat} (h : n < 2 ^ 53) :
    nearest (n : ℚ≥0) = n := by
  obtain ⟨k, hunit⟩ := exists_unit h
  unfold nearest
  split
  · rename_i hzero
    exact hzero.symm
  · have hpow : (2 ^ k : ℚ≥0) ≠ 0 := pow_ne_zero k two_ne_zero
    have hmultiple : (n : ℚ≥0) = ((n * 2 ^ k : Nat) : ℚ≥0) * (2 ^ k)⁻¹ := by
      push_cast
      rw [mul_assoc, mul_inv_cancel₀ hpow, mul_one]
    rw [hunit]
    conv_lhs => rw [hmultiple]
    rw [roundAt_mul (inv_ne_zero hpow), ← hmultiple]

theorem ofNat_of_lt {n : Nat} (h : n < 2 ^ 53) :
    ofNat n = .finite false n := by
  have hbound : ¬overflows (n : ℚ≥0) := by
    rw [overflows, nearest_natCast h, bound, not_le]
    exact_mod_cast h.trans (Nat.pow_lt_pow_right (by decide) (by decide))
  rw [ofNat, ofNNRat, if_neg hbound, nearest_natCast h]

theorem lt_finite (s t : Bool) (x y : ℚ≥0) :
    (finite s x).lt (finite t y) = decide (signed s x < signed t y) := by
  simp [lt, place?]

theorem signed_natCast (n : Nat) : signed false (n : ℚ≥0) = n := by
  simp [signed]

/-- A double passes the test against two bounds exactly if it is a number
between them. -/
theorem between_iff {low high : Nat} (hlow : low < 2 ^ 53)
    (hhigh : high < 2 ^ 53) (x : Double) :
    (x.isNan || x.lt (ofNat low) || (ofNat high).lt x) = false ↔
      ∃ q, x.toRat? = some q ∧ (low : ℚ) ≤ q ∧ q ≤ high := by
  rw [ofNat_of_lt hlow, ofNat_of_lt hhigh]
  cases x with
  | nan negative => simp [isNan, toRat?]
  | inf negative => cases negative <;> simp [lt, place?, toRat?]
  | finite negative magnitude =>
      simp [isNan, lt_finite, signed_natCast, toRat?]

end Double

end HeidiKernel.Data
