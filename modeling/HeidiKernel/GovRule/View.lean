import HeidiKernel.Data.Bytes
import HeidiKernel.Data.Loop
import HeidiKernel.Data.Span

namespace HeidiKernel.Gov

open HeidiKernel.Data

/-! Views of a payload. Every operation checks the precondition that
`string_view` leaves to its caller. -/

/-- What the parser must never do: break the precondition of a view operation,
let an exception escape, or loop forever. -/
inductive Fault
  | front
  | back
  | index
  | removePrefix
  | removeSuffix
  | substr
  | outOfRange
  | stuck
  deriving DecidableEq, Repr

namespace View

def front (s : Bytes) : Except Fault UInt8 :=
  match s.head? with
  | some c => .ok c
  | none => .error .front

def back (s : Bytes) : Except Fault UInt8 :=
  match s.getLast? with
  | some c => .ok c
  | none => .error .back

/-- `s[i]` -/
def get (s : Bytes) (i : Nat) : Except Fault UInt8 :=
  match s[i]? with
  | some c => .ok c
  | none => .error .index

def removePrefix (n : Nat) (s : Bytes) : Except Fault Bytes :=
  if n ≤ s.length then .ok (s.drop n) else .error .removePrefix

def removeSuffix (n : Nat) (s : Bytes) : Except Fault Bytes :=
  if n ≤ s.length then .ok (s.take (s.length - n)) else .error .removeSuffix

def substr (pos n : Nat) (s : Bytes) : Except Fault Bytes :=
  if pos ≤ s.length then .ok ((s.drop pos).take n) else .error .substr

@[simp] theorem front_cons (c : UInt8) (s : Bytes) :
    front (c :: s) = .ok c := rfl

@[simp] theorem back_concat (s : Bytes) (c : UInt8) :
    back (s ++ [c]) = .ok c := by
  simp [back]

@[simp] theorem get_zero_cons (c : UInt8) (s : Bytes) :
    get (c :: s) 0 = .ok c := rfl

theorem get_append_cons (s : Bytes) (c : UInt8) (t : Bytes) :
    get (s ++ c :: t) s.length = .ok c := by
  simp [get]

@[simp] theorem removePrefix_one_cons (c : UInt8) (s : Bytes) :
    removePrefix 1 (c :: s) = .ok s := by
  simp [removePrefix]

theorem removePrefix_append (s t : Bytes) :
    removePrefix s.length (s ++ t) = .ok t := by
  simp [removePrefix]

theorem removeSuffix_one_concat (s : Bytes) (c : UInt8) :
    removeSuffix 1 (s ++ [c]) = .ok s := by
  simp [removeSuffix]

theorem substr_append (s t : Bytes) :
    substr 0 s.length (s ++ t) = .ok s := by
  simp [substr]

end View

def quote : UInt8 := 0x22
def comma : UInt8 := 0x2c
def minus : UInt8 := 0x2d
def colon : UInt8 := 0x3a
def backslash : UInt8 := 0x5c
def lbrace : UInt8 := 0x7b
def rbrace : UInt8 := 0x7d

def isWhitespace (c : UInt8) : Bool :=
  c == 0x20 || c == 0x09 || c == 0x0a || c == 0x0d

def isDigit (c : UInt8) : Bool := 0x30 ≤ c && c ≤ 0x39

/-! What the two trimming loops leave. -/

def trimStart (s : Bytes) : Bytes := s.dropWhile isWhitespace

def trimEnd (s : Bytes) : Bytes := s.rdropWhile isWhitespace

def trimmed (s : Bytes) : Bytes := trimStart (trimEnd s)

def skipStep (s : Bytes) : Except Fault (Option Bytes) :=
  if s.isEmpty then
    pure none
  else do
    if isWhitespace (← View.get s 0) then
      some <$> View.removePrefix 1 s
    else
      pure none

def skipWhitespace (s : Bytes) : Except Fault Bytes :=
  loop (fun _ => .stuck) skipStep (s.length + 1) s

def trimBackStep (s : Bytes) : Except Fault (Option Bytes) :=
  if s.isEmpty then
    pure none
  else do
    if isWhitespace (← View.back s) then
      some <$> View.removeSuffix 1 s
    else
      pure none

def trimFrontStep (s : Bytes) : Except Fault (Option Bytes) :=
  if s.isEmpty then
    pure none
  else do
    if isWhitespace (← View.front s) then
      some <$> View.removePrefix 1 s
    else
      pure none

def trim (s : Bytes) : Except Fault Bytes := do
  let s ← loop (fun _ => .stuck) trimBackStep (s.length + 1) s
  loop (fun _ => .stuck) trimFrontStep (s.length + 1) s

theorem skipStep_cons (c : UInt8) (s : Bytes) :
    skipStep (c :: s) =
      if isWhitespace c then .ok (some s) else .ok none := by
  cases h : isWhitespace c <;> simp [skipStep, h]

theorem trimFrontStep_eq : trimFrontStep = skipStep := by
  funext s
  cases s <;> rfl

theorem skipStep_size (s s' : Bytes) (h : skipStep s = .ok (some s')) :
    s'.length < s.length := by
  cases s with
  | nil => simp [skipStep] at h
  | cons c s =>
      rw [skipStep_cons] at h
      split at h
      · obtain rfl : s = s' := by simpa using h
        exact Nat.lt_succ_self _
      · simp at h

theorem trimStart_cons (c : UInt8) (s : Bytes) :
    trimStart (c :: s) = if isWhitespace c then trimStart s else c :: s := by
  unfold trimStart
  rw [List.dropWhile_cons]

theorem loop_skipStep (s : Bytes) :
    loop (fun _ => Fault.stuck) skipStep (s.length + 1) s =
      .ok (trimStart s) := by
  rw [loop_eq_ok_iff skipStep_size (Nat.lt_succ_self _)]
  induction s with
  | nil => exact ⟨.refl, rfl⟩
  | cons c s ih =>
      rw [trimStart_cons]
      cases hspace : isWhitespace c with
      | true =>
          have hstep : skipStep (c :: s) = .ok (some s) := by
            rw [skipStep_cons, hspace]
            rfl
          exact ⟨.head hstep ih.1, ih.2⟩
      | false =>
          refine ⟨.refl, ?_⟩
          change skipStep (c :: s) = _
          rw [skipStep_cons, hspace]
          rfl

theorem skipWhitespace_eq (s : Bytes) :
    skipWhitespace s = .ok (trimStart s) :=
  loop_skipStep s

theorem trimBackStep_concat (s : Bytes) (c : UInt8) :
    trimBackStep (s ++ [c]) =
      if isWhitespace c then .ok (some s) else .ok none := by
  cases h : isWhitespace c <;>
    simp [trimBackStep, h, View.removeSuffix_one_concat]

theorem trimBackStep_size (s s' : Bytes)
    (h : trimBackStep s = .ok (some s')) : s'.length < s.length := by
  rcases List.eq_nil_or_concat s with rfl | ⟨front, last, rfl⟩
  · simp [trimBackStep] at h
  · rw [List.concat_eq_append, trimBackStep_concat] at h
    split at h
    · obtain rfl : front = s' := by simpa using h
      simp
    · simp at h

theorem loop_trimBackStep (s : Bytes) :
    loop (fun _ => Fault.stuck) trimBackStep (s.length + 1) s =
      .ok (trimEnd s) := by
  rw [loop_eq_ok_iff trimBackStep_size (Nat.lt_succ_self _)]
  induction s using List.reverseRecOn with
  | nil => exact ⟨.refl, rfl⟩
  | append_singleton s c ih =>
      rw [trimEnd, List.rdropWhile_concat]
      cases hspace : isWhitespace c with
      | true =>
          have hstep : trimBackStep (s ++ [c]) = .ok (some s) := by
            rw [trimBackStep_concat, hspace]
            rfl
          exact ⟨.head hstep ih.1, ih.2⟩
      | false =>
          refine ⟨.refl, ?_⟩
          change trimBackStep (s ++ [c]) = _
          rw [trimBackStep_concat, hspace]
          rfl

theorem trim_eq (s : Bytes) : trim s = .ok (trimmed s) := by
  unfold trim
  rw [loop_trimBackStep, trimFrontStep_eq]
  exact loop_skipStep _

theorem trimStart_suffix (s : Bytes) : (trimStart s).IsSuffix s :=
  List.dropWhile_suffix _

theorem length_trimStart_le (s : Bytes) :
    (trimStart s).length ≤ s.length :=
  (trimStart_suffix s).length_le

theorem length_trimmed_le (s : Bytes) : (trimmed s).length ≤ s.length :=
  (length_trimStart_le _).trans (List.rdropWhile_prefix _ _).length_le

end HeidiKernel.Gov
