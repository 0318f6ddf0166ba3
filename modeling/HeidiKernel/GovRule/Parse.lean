import HeidiKernel.GovRule.Message
import HeidiKernel.GovRule.Scan

namespace HeidiKernel.Gov

open HeidiKernel.Data

/-- How a parse ends before its time. -/
inductive Exit
  | fault (f : Fault)
  | nack (code : AckCode) (detail : Bytes)
  deriving DecidableEq, Repr

/-- The payload is turned down, and not with `ACK`. -/
def Exit.IsNack : Exit → Prop
  | fault _ => False
  | nack code _ => code ≠ .ack

instance : MonadLift (Except Fault) (Except Exit) where
  monadLift x := x.mapError Exit.fault

@[simp] theorem liftM_ok {α : Type} (a : α) :
    (liftM (Except.ok a : Except Fault α) : Except Exit α) = .ok a := rfl

@[simp] theorem liftM_error {α : Type} (f : Fault) :
    (liftM (Except.error f : Except Fault α) : Except Exit α) =
      .error (.fault f) := rfl

/-! One member of an object. -/

structure Cursor (σ : Type) where
  view : Bytes
  value : σ

/-- A value is parsed and stored, or the payload is turned down. -/
def readField {α σ : Type} (parse : Bytes → Except Fault (Option α × Bytes))
    (code : AckCode) (detail : Bytes) (store : α → Except Exit σ)
    (s : Bytes) : Except Exit (Cursor σ) := do
  match ← liftM (parse s) with
  | (none, _) => throw (.nack code detail)
  | (some val, s) => do
      let value ← store val
      return ⟨s, value⟩

/-- The end of a member: blanks, and one comma if there is one. -/
def endMember (s : Bytes) : Except Fault Bytes := do
  let s ← skipWhitespace s
  if s.isEmpty then
    return s
  if (← View.get s 0) == comma then
    trim (← View.removePrefix 1 s)
  else
    return s

section Members

variable {σ : Type} (keyDetail colonDetail : Bytes)
  (field : Bytes → Bytes → σ → Except Exit (Cursor σ))

def memberStep (c : Cursor σ) : Except Exit (Option (Cursor σ)) :=
  if c.view.isEmpty then
    pure none
  else do
    match ← liftM (parseKey c.view) with
    | (none, _) => throw (.nack .nackParseError keyDetail)
    | (some key, s) =>
        match ← liftM (consumeColon s) with
        | (false, _) => throw (.nack .nackParseError colonDetail)
        | (true, s) => do
            let next ← field key s c.value
            let s ← liftM (endMember next.view)
            return some ⟨s, next.value⟩

/-- The loop over the members. Where it fails it also gives the value built so
far. -/
def members (c : Cursor σ) : Except (Exit × σ) (Cursor σ) :=
  loop (fun c => (.fault .stuck, c.value))
    (fun c => (memberStep keyDetail colonDetail field c).mapError (·, c.value))
    (c.view.length + 1) c

end Members

/-! The extent of a sub-object, which ends where the braces balance or where
the view does. -/

def braceStep (s : Bytes) :
    Nat × Nat → Except Fault (Option (Nat × Nat))
  | (i, depth) =>
      if i < s.length && 0 < depth then do
        let c ← View.get s i
        if c == lbrace then
          pure (some (i + 1, depth + 1))
        else if c == rbrace then
          pure (some (i + 1, depth - 1))
        else
          pure (some (i + 1, depth))
      else
        pure none

def braceEnd (s : Bytes) : Except Fault Nat := do
  let (stop, _) ← loop (fun _ => .stuck) (braceStep s) (s.length + 1) (1, 1)
  return stop

/-- The members of the sub-object a view starts with, and what follows it. -/
def sliceObject (s : Bytes) : Except Fault (Bytes × Bytes) := do
  let stop ← braceEnd s
  let obj ← View.substr 0 stop s
  let s ← View.removePrefix stop s
  let obj ← trim obj
  let obj ← View.removePrefix 1 obj
  let obj ← View.removeSuffix 1 obj
  let obj ← trim obj
  return (obj, s)

/-- The common body of the four sub-objects. -/
def parseObject {σ τ : Type} (name : Bytes)
    (field : Bytes → Bytes → σ → Except Exit (Cursor σ)) (init : σ)
    (store : σ → τ) (s : Bytes) : Except Exit (Cursor τ) := do
  let mustBeObject : Exit :=
    .nack .nackParseError (name ++ bytes " must be an object")
  if s.isEmpty then
    throw mustBeObject
  if (← liftM (View.front s)) != lbrace then
    throw mustBeObject
  let (obj, s) ← liftM (sliceObject s)
  let policy ←
    (members (bytes "failed to parse " ++ name ++ bytes " sub-key")
      (bytes "missing colon in " ++ name ++ bytes " object")
      field ⟨obj, init⟩).mapError Prod.fst
  return ⟨s, store policy.value⟩

def cpuField (key s : Bytes) (policy : CpuPolicy) :
    Except Exit (Cursor CpuPolicy) :=
  if key = bytes "affinity" then
    readField parseStringValue .nackParseError
      (bytes "failed to parse affinity value")
      (fun val => pure { policy with affinity := some val }) s
  else if key = bytes "nice" then
    readField parseInt8Value .nackInvalidRange
      (bytes "nice value out of range (-128 to 127)")
      (fun val => pure { policy with nice := some val }) s
  else if key = bytes "max_pct" then
    readField parseUint8Value .nackInvalidRange
      (bytes "max_pct value out of range (0-255)")
      (fun val => pure { policy with maxPct := some val }) s
  else
    throw (.nack .nackUnknownField (bytes "unknown cpu field: " ++ key))

def memField (key s : Bytes) (policy : MemPolicy) :
    Except Exit (Cursor MemPolicy) :=
  if key = bytes "max_bytes" then
    readField parseUintValue .nackParseError
      (bytes "failed to parse max_bytes value")
      (fun val => pure { policy with maxBytes := some (UInt64.ofNat val) }) s
  else
    throw (.nack .nackUnknownField (bytes "unknown mem field: " ++ key))

def pidsField (key s : Bytes) (policy : PidsPolicy) :
    Except Exit (Cursor PidsPolicy) :=
  if key = bytes "max" then
    readField parseUintValue .nackParseError
      (bytes "failed to parse pids max value")
      (fun val =>
        if 0xFFFFFFFF < val then
          throw (.nack .nackInvalidRange (bytes "pids max out of range"))
        else
          pure { policy with max := some (UInt32.ofNat val) }) s
  else
    throw (.nack .nackUnknownField (bytes "unknown pids field: " ++ key))

def rlimField (key s : Bytes) (policy : RlimPolicy) :
    Except Exit (Cursor RlimPolicy) :=
  if key = bytes "nofile_soft" then
    readField parseUintValue .nackParseError
      (bytes "failed to parse nofile_soft value")
      (fun val => pure { policy with nofileSoft := some (UInt64.ofNat val) }) s
  else if key = bytes "nofile_hard" then
    readField parseUintValue .nackParseError
      (bytes "failed to parse nofile_hard value")
      (fun val => pure { policy with nofileHard := some (UInt64.ofNat val) }) s
  else if key = bytes "core_soft" then
    readField parseUintValue .nackParseError
      (bytes "failed to parse core_soft value")
      (fun val => pure { policy with coreSoft := some (UInt64.ofNat val) }) s
  else if key = bytes "core_hard" then
    readField parseUintValue .nackParseError
      (bytes "failed to parse core_hard value")
      (fun val => pure { policy with coreHard := some (UInt64.ofNat val) }) s
  else
    throw (.nack .nackUnknownField (bytes "unknown rlim field: " ++ key))

/-! The payload. -/

/-- The message so far, and `has_pid`. -/
structure Draft where
  msg : GovApplyMsg := {}
  hasPid : Bool := false

def applyField (key s : Bytes) (draft : Draft) :
    Except Exit (Cursor Draft) :=
  let msg := draft.msg
  if key = bytes "pid" then
    readField parseIntValue .nackParseError
      (bytes "failed to parse pid value")
      (fun val =>
        if val ≤ 0 then
          throw (.nack .nackInvalidPid (bytes "pid must be positive"))
        else
          pure ⟨{ msg with pid := Int32.ofInt val }, true⟩) s
  else if key = bytes "cpu" then
    parseObject (bytes "cpu") cpuField {}
      (fun policy => { draft with msg := { msg with cpu := some policy } }) s
  else if key = bytes "mem" then
    parseObject (bytes "mem") memField {}
      (fun policy => { draft with msg := { msg with mem := some policy } }) s
  else if key = bytes "pids" then
    parseObject (bytes "pids") pidsField {}
      (fun policy => { draft with msg := { msg with pids := some policy } }) s
  else if key = bytes "rlim" then
    parseObject (bytes "rlim") rlimField {}
      (fun policy => { draft with msg := { msg with rlim := some policy } }) s
  else if key = bytes "oom_score_adj" then
    readField parseIntValue .nackParseError
      (bytes "failed to parse oom_score_adj value")
      (fun val =>
        if val < -1000 ∨ 1000 < val then
          throw (.nack .nackInvalidRange
            (bytes "oom_score_adj out of range (-1000 to 1000)"))
        else
          pure { draft with
            msg := { msg with oomScoreAdj := some (Int32.ofInt val) } }) s
  else
    throw (.nack .nackUnknownField (bytes "unknown field: " ++ key))

/-- The answer, once the loop over the members is over. -/
def conclude :
    Except (Exit × Draft) (Cursor Draft) → Except Fault ParseResult
  | .error (.fault f, _) => .error f
  | .error (.nack code detail, draft) =>
      .ok { ack := code, msg := draft.msg, errorDetail := detail }
  | .ok ⟨_, draft⟩ =>
      if !draft.hasPid then
        .ok { ack := .nackInvalidPayload, msg := draft.msg
              errorDetail := bytes "missing required field: pid" }
      else
        .ok { success := true, ack := .ack, msg := draft.msg }

def kMaxPayloadSize : Nat := 512

def parseGovApply (payload : Bytes) : Except Fault ParseResult := do
  if kMaxPayloadSize < payload.length then
    return { ack := .nackInvalidPayload
             errorDetail := bytes "payload exceeds 512 bytes" }
  if payload.isEmpty then
    return { ack := .nackInvalidPayload, errorDetail := bytes "empty payload" }
  let s ← trim payload
  let notObject : ParseResult :=
    { ack := .nackParseError, errorDetail := bytes "expected JSON object" }
  if (← View.front s) != lbrace then
    return notObject
  if (← View.back s) != rbrace then
    return notObject
  let s ← View.removePrefix 1 s
  let s ← View.removeSuffix 1 s
  let s ← trim s
  conclude (members (bytes "failed to parse key")
    (bytes "missing colon after key") applyField ⟨s, {}⟩)

example :
    (parseGovApply (bytes "\x7b\"pid\": 7, \"cpu\":\x7b\"nice\":-5\x7d\x7d")).toOption.map
      (·.msg) = some { pid := 7, cpu := some { nice := some (-5) } } := by
  decide +kernel

end HeidiKernel.Gov
