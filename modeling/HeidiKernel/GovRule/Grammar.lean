import HeidiKernel.GovRule.Lex
import HeidiKernel.GovRule.Message

namespace HeidiKernel.Gov

/-! The payloads the parser reads, with the texts it takes for their values. -/

inductive Kind
  | string
  | int (lo hi : Int)
  | uint (hi : Nat)
  deriving DecidableEq

namespace Kind

def Token : Kind → Bytes → Bytes → Bytes → Prop
  | string => Quoted
  | int _ _ => Signed
  | uint _ => Unsigned

def Accepts : Kind → Bytes → Prop
  | string, _ => True
  | int lo hi, text => lo ≤ intOf text ∧ intOf text ≤ hi
  | uint hi, text => natOf text ≤ hi

/-- The number does not fit the 64 bits it is first read into. -/
def Overruns : Kind → Bytes → Prop
  | string, _ => False
  | int _ _, text => intOf text < -2 ^ 63 ∨ 2 ^ 63 ≤ intOf text
  | uint _, text => 2 ^ 64 ≤ natOf text

end Kind

/-! The members of one object. `Item key s m rest` stands for a value `m` at
`s` under `key`, with `rest` after it. -/

section Passes

variable {M : Type} (Item : Bytes → Bytes → M → Bytes → Prop)
  (Overruns : Bytes → Bytes → Prop)

/-- What is left after a member: blanks go, and one comma if there is one. -/
def memberEnd (s : Bytes) : Bytes :=
  match trimStart s with
  | [] => []
  | c :: s => if c = comma then trimmed s else c :: s

inductive Passes : Bytes → List M → Bytes → Prop
  | here {s : Bytes} : Passes s [] s
  | next {s afterKey afterColon afterValue rest key : Bytes} {m : M}
      {ms : List M} :
      Quoted s key afterKey → Colon afterKey afterColon →
      Item key afterColon m afterValue →
      Passes (memberEnd afterValue) ms rest → Passes s (m :: ms) rest

/-- After some members comes one whose value overruns. -/
inductive Overrun : Bytes → Prop
  | here {s afterKey afterColon key : Bytes} :
      Quoted s key afterKey → Colon afterKey afterColon →
      Overruns key afterColon → Overrun s
  | next {s afterKey afterColon afterValue key : Bytes} {m : M} :
      Quoted s key afterKey → Colon afterKey afterColon →
      Item key afterColon m afterValue →
      Overrun (memberEnd afterValue) → Overrun s

end Passes

/-! The fields of a sub-object. -/

abbrev Table := Bytes → Option Kind

structure Literal where
  key : Bytes
  text : Bytes
  deriving DecidableEq, Repr

inductive FieldItem (table : Table) :
    Bytes → Bytes → Literal → Bytes → Prop
  | intro {key s text rest : Bytes} {kind : Kind} :
      table key = some kind → kind.Token s text rest → kind.Accepts text →
      FieldItem table key s ⟨key, text⟩ rest

inductive FieldOverruns (table : Table) : Bytes → Bytes → Prop
  | intro {key s text rest : Bytes} {kind : Kind} :
      table key = some kind → kind.Token s text rest → kind.Overruns text →
      FieldOverruns table key s

def cpuTable (key : Bytes) : Option Kind :=
  if key = bytes "affinity" then some .string
  else if key = bytes "nice" then some (.int (-128) 127)
  else if key = bytes "max_pct" then some (.uint 255)
  else none

def memTable (key : Bytes) : Option Kind :=
  if key = bytes "max_bytes" then some (.uint (2 ^ 64 - 1)) else none

def pidsTable (key : Bytes) : Option Kind :=
  if key = bytes "max" then some (.uint (2 ^ 32 - 1)) else none

def rlimTable (key : Bytes) : Option Kind :=
  if key = bytes "nofile_soft" then some (.uint (2 ^ 64 - 1))
  else if key = bytes "nofile_hard" then some (.uint (2 ^ 64 - 1))
  else if key = bytes "core_soft" then some (.uint (2 ^ 64 - 1))
  else if key = bytes "core_hard" then some (.uint (2 ^ 64 - 1))
  else none

/-! The members of the payload. -/

/-- The bytes up to where the braces balance, and those after. -/
def braceSpan : Nat → Bytes → Bytes × Bytes
  | 0, s => ([], s)
  | _ + 1, [] => ([], [])
  | depth + 1, c :: s =>
      let next :=
        if c = lbrace then depth + 2 else if c = rbrace then depth else depth + 1
      ((c :: (braceSpan next s).1), (braceSpan next s).2)

/-- The parser cuts a sub-object out where the braces balance, and takes its first
and its last byte off, whatever that is. -/
structure ObjectAt (s body rest : Bytes) : Prop where
  slice : ∃ inside inner last,
    s = lbrace :: inside ∧ rest = (braceSpan 1 inside).2 ∧
    trimmed (lbrace :: (braceSpan 1 inside).1) = lbrace :: (inner ++ [last]) ∧
    body = trimmed inner

/-- A lone brace has no last byte to lose. -/
def LoneBrace (s : Bytes) : Prop := ∃ blank, Blank blank ∧ s = lbrace :: blank

inductive Value
  | literal (kind : Kind)
  | object (table : Table)

inductive Member
  | literal (field : Literal)
  | object (key : Bytes) (fields : List Literal)
  deriving DecidableEq, Repr

def applyTable (key : Bytes) : Option Value :=
  if key = bytes "pid" then some (.literal (.int 1 (2 ^ 63 - 1)))
  else if key = bytes "cpu" then some (.object cpuTable)
  else if key = bytes "mem" then some (.object memTable)
  else if key = bytes "pids" then some (.object pidsTable)
  else if key = bytes "rlim" then some (.object rlimTable)
  else if key = bytes "oom_score_adj" then
    some (.literal (.int (-1000) 1000))
  else none

inductive ApplyItem : Bytes → Bytes → Member → Bytes → Prop
  | literal {key s text rest : Bytes} {kind : Kind} :
      applyTable key = some (.literal kind) → kind.Token s text rest →
      kind.Accepts text → ApplyItem key s (.literal ⟨key, text⟩) rest
  | object {key s body rest : Bytes} {table : Table}
      {fields : List Literal} :
      applyTable key = some (.object table) → ObjectAt s body rest →
      Passes (FieldItem table) body fields [] →
      ApplyItem key s (.object key fields) rest

inductive ApplyOverruns : Bytes → Bytes → Prop
  | literal {key s text rest : Bytes} {kind : Kind} :
      applyTable key = some (.literal kind) → kind.Token s text rest →
      kind.Overruns text → ApplyOverruns key s
  | brace {key s : Bytes} {table : Table} :
      applyTable key = some (.object table) → LoneBrace s →
      ApplyOverruns key s
  | object {key s body rest : Bytes} {table : Table} :
      applyTable key = some (.object table) → ObjectAt s body rest →
      Overrun (FieldItem table) (FieldOverruns table) body →
      ApplyOverruns key s

/-! The payload. -/

structure Body (payload body : Bytes) : Prop where
  short : payload.length ≤ 512
  braces : ∃ inner, trimmed payload = lbrace :: (inner ++ [rbrace]) ∧
    body = trimmed inner

/-- The parser reads a list of members from the first byte to the last. -/
def Reads (payload : Bytes) (doc : List Member) : Prop :=
  ∃ body, Body payload body ∧ Passes ApplyItem body doc []

/-- A short payload of blanks only. -/
def BlankPayload (payload : Bytes) : Prop :=
  payload.length ≤ 512 ∧ payload ≠ [] ∧ Blank payload

/-- The members of a payload lead to a value that overruns. -/
def OverrunPayload (payload : Bytes) : Prop :=
  ∃ body, Body payload body ∧ Overrun ApplyItem ApplyOverruns body

end HeidiKernel.Gov
