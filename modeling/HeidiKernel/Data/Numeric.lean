import HeidiKernel.Data.Bytes
import Mathlib.Algebra.Group.Int.Defs
import Mathlib.Algebra.Group.Nat.Defs
import Mathlib.Data.Int.Init

namespace HeidiKernel.Data.Numeric

/-! The number readers of the standard library. They skip blanks, read the
longest number they can and ignore what follows it. -/

inductive ConversionError
  | invalidArgument
  | outOfRange
  deriving DecidableEq, Repr

/-- `isspace` in the C locale. -/
def isSpace (c : UInt8) : Bool := c = 0x20 || (0x09 ≤ c && c ≤ 0x0d)

def isDigit (c : UInt8) : Bool := 0x30 ≤ c && c ≤ 0x39

def toLower (c : UInt8) : UInt8 := if 0x41 ≤ c && c ≤ 0x5a then c + 0x20 else c

/-- The value of a digit in the bases up to sixteen. -/
def digitValue (c : UInt8) : Nat :=
  if isDigit c then c.toNat - 0x30 else (toLower c).toNat - 0x61 + 10

def natOfDigits (base : Nat) (digits : Bytes) : Nat :=
  digits.foldl (fun n c => base * n + digitValue c) 0

/-- An optional sign: whether it is a minus, and what follows it. -/
def readSign : Bytes → Bool × Bytes
  | [] => (false, [])
  | c :: rest =>
      if c = 0x2d then
        (true, rest)
      else if c = 0x2b then
        (false, rest)
      else
        (false, c :: rest)

/-- The sign and the magnitude `strtol` and `strtoull` read in base ten. -/
def readDecimal? (text : Bytes) : Option (Bool × Nat) :=
  let (negative, rest) := readSign (text.dropWhile isSpace)
  let digits := rest.takeWhile isDigit
  if digits = [] then none else some (negative, natOfDigits 10 digits)

def stoi (text : Bytes) : Except ConversionError Int32 :=
  match readDecimal? text with
  | none => .error .invalidArgument
  | some (negative, n) =>
      let value : Int := if negative then -n else n
      if -2 ^ 31 ≤ value ∧ value < 2 ^ 31 then
        .ok (Int32.ofInt value)
      else
        .error .outOfRange

/-- A minus in front of the digits negates modulo the range. -/
def stoull (text : Bytes) : Except ConversionError UInt64 :=
  match readDecimal? text with
  | none => .error .invalidArgument
  | some (negative, n) =>
      if n < 2 ^ 64 then
        .ok (if negative then -UInt64.ofNat n else UInt64.ofNat n)
      else
        .error .outOfRange

end HeidiKernel.Data.Numeric
