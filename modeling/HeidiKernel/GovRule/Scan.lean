import HeidiKernel.GovRule.View
import Mathlib.Algebra.Group.Int.Defs
import Mathlib.Algebra.Group.Nat.Defs

namespace HeidiKernel.Gov

open HeidiKernel.Data

/-! Scanning one token. A scanner gives the value it stored, if it answered
true, and the view it left behind. -/

/-- One round of `while (end < s.size() && s[end] != '"')`. -/
def closingQuoteStep (s : Bytes) (i : Nat) : Except Fault (Option Nat) :=
  if i < s.length then do
    let c ← View.get s i
    if c == quote then
      pure none
    else if c == backslash && i + 1 < s.length then
      pure (some (i + 2))
    else
      pure (some (i + 1))
  else
    pure none

def closingQuote (s : Bytes) : Except Fault Nat :=
  loop (fun _ => .stuck) (closingQuoteStep s) (s.length + 1) 0

/-- The common body of `parse_string_value` and `parse_key`. -/
def parseQuoted (s : Bytes) : Except Fault (Option Bytes × Bytes) := do
  let s ← skipWhitespace s
  if s.isEmpty then
    return (none, s)
  if (← View.get s 0) != quote then
    return (none, s)
  let s ← View.removePrefix 1 s
  let close ← closingQuote s
  if s.length ≤ close then
    return (none, s)
  let out ← View.substr 0 close s
  let s ← View.removePrefix (close + 1) s
  return (some out, s)

def parseStringValue (s : Bytes) : Except Fault (Option Bytes × Bytes) := parseQuoted s

def parseKey (s : Bytes) : Except Fault (Option Bytes × Bytes) := parseQuoted s

/-- One round of `while (end < s.size() && is_digit(s[end]))`. -/
def digitsStep (s : Bytes) (i : Nat) : Except Fault (Option Nat) :=
  if i < s.length then do
    if isDigit (← View.get s i) then
      pure (some (i + 1))
    else
      pure none
  else
    pure none

def digitsEnd (s : Bytes) (start : Nat) : Except Fault Nat :=
  loop (fun _ => .stuck) (digitsStep s) (s.length + 1) start

def natOf (digits : Bytes) : Nat :=
  digits.foldl (fun n c => 10 * n + (c.toNat - 0x30)) 0

def intOf (text : Bytes) : Int :=
  match text with
  | [] => 0
  | c :: digits => if c == minus then -natOf digits else natOf (c :: digits)

/-- `std::stoll`, on a text that starts with a number. -/
def stoll (text : Bytes) : Except Fault Int :=
  if -2 ^ 63 ≤ intOf text ∧ intOf text < 2 ^ 63 then
    .ok (intOf text)
  else
    .error .outOfRange

/-- `std::stoull`, on a text that starts with a number. -/
def stoull (text : Bytes) : Except Fault Nat :=
  if natOf text < 2 ^ 64 then .ok (natOf text) else .error .outOfRange

/-- Where the digits of `parse_int_value` start. -/
def digitsStart (s : Bytes) : Except Fault Nat :=
  if s.isEmpty then
    pure 0
  else do
    if (← View.get s 0) == minus then
      pure 1
    else
      pure 0

def parseIntValue (s : Bytes) : Except Fault (Option Int × Bytes) := do
  let s ← skipWhitespace s
  let start ← digitsStart s
  if s.length ≤ start then
    return (none, s)
  if !isDigit (← View.get s start) then
    return (none, s)
  let stop ← digitsEnd s start
  let out ← stoll (← View.substr 0 stop s)
  let s ← View.removePrefix stop s
  return (some out, s)

def parseUintValue (s : Bytes) : Except Fault (Option Nat × Bytes) := do
  let s ← skipWhitespace s
  if s.isEmpty then
    return (none, s)
  if !isDigit (← View.get s 0) then
    return (none, s)
  let stop ← digitsEnd s 0
  let out ← stoull (← View.substr 0 stop s)
  let s ← View.removePrefix stop s
  return (some out, s)

/-- The common body of `parse_uint8_value` and `parse_int8_value`. -/
def parseNarrow {α β : Type} (parse : Bytes → Except Fault (Option α × Bytes))
    (inRange : α → Bool) (cast : α → β) (s : Bytes) :
    Except Fault (Option β × Bytes) := do
  match ← parse s with
  | (none, s) => return (none, s)
  | (some val, s) =>
      if !inRange val then
        return (none, s)
      return (some (cast val), s)

def parseUint8Value (s : Bytes) : Except Fault (Option UInt8 × Bytes) :=
  parseNarrow parseUintValue (fun val => !(255 < val)) UInt8.ofNat s

def parseInt8Value (s : Bytes) : Except Fault (Option Int8 × Bytes) :=
  parseNarrow parseIntValue (fun val => !(val < -128 || 127 < val))
    Int8.ofInt s

def consumeColon (s : Bytes) : Except Fault (Bool × Bytes) := do
  let s ← skipWhitespace s
  if s.isEmpty then
    return (false, s)
  if (← View.get s 0) == colon then
    let s ← View.removePrefix 1 s
    return (true, s)
  return (false, s)

end HeidiKernel.Gov
