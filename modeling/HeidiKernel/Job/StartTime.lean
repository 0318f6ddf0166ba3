import HeidiKernel.Data.CString
import HeidiKernel.Data.Output

namespace HeidiKernel

open Data Numeric

/-! The start time of a process in its line of `/proc/<pid>/stat`. -/

def strrchr (c : UInt8) : Bytes → Option Bytes
  | [] => none
  | x :: rest =>
      match strrchr c rest with
      | some found => some found
      | none => if x = c then some (x :: rest) else none

/-- What does not fit is the largest number, and nothing is zero. -/
def strtoull (text : Bytes) : UInt64 :=
  match readDecimal? text with
  | none => 0
  | some (negative, n) =>
      if n < 2 ^ 64 then
        if negative then -UInt64.ofNat n else UInt64.ofNat n
      else
        UInt64.ofNat (2 ^ 64 - 1)

namespace StartTime

def startTimeField : Nat := 22

def tokenBufferSize : Nat := 64

/-- The length of the token is cut to an `int`. -/
def parseToken (token : Bytes) : Option UInt64 :=
  let len := (Int32.ofNat token.length).toInt
  if 0 < len ∧ len < tokenBufferSize then
    some (strtoull (token.take len.toNat))
  else
    none

/-- The loop over the tokens, the next of which is the given field. -/
def scanTokens (tokenIdx : Nat) (s : Bytes) : Option UInt64 :=
  match hrest : s.dropWhile isSpace with
  | [] => none
  | c :: rest =>
      if tokenIdx = startTimeField then
        parseToken ((c :: rest).takeWhile (!isSpace ·))
      else
        scanTokens (tokenIdx + 1) (rest.dropWhile (!isSpace ·))
termination_by s.length
decreasing_by
  have hskip := (List.dropWhile_sublist (l := s) isSpace).length_le
  have hnext := (List.dropWhile_sublist (l := rest) (!isSpace ·)).length_le
  rw [hrest, List.length_cons] at hskip
  omega

end StartTime

open StartTime

def parseStartTimeFromStatLine (statLine : Option Bytes) : Option UInt64 :=
  match statLine with
  | none => none
  | some line =>
      match strrchr 0x29 (CString.text line) with
      | none => none
      | some p => scanTokens 3 p.tail

namespace StartTime

/-! The lines of `proc(5)`: tokens behind the parenthesis of the command, with
blanks between them. -/

structure Token (token : Bytes) : Prop where
  nonempty : token ≠ []
  plain : ∀ c ∈ token, isSpace c = false ∧ c ≠ 0 ∧ c ≠ 0x29

instance (token : Bytes) : Decidable (Token token) :=
  have := List.decidableBAll
    (fun c : UInt8 => isSpace c = false ∧ c ≠ 0 ∧ c ≠ 0x29) token
  decidable_of_iff (token ≠ [] ∧
      ∀ c ∈ token, isSpace c = false ∧ c ≠ 0 ∧ c ≠ 0x29)
    ⟨fun h => ⟨h.1, h.2⟩, fun h => ⟨h.1, h.2⟩⟩

/-- The text ends the token before it. -/
def Separates (text : Bytes) : Prop := ∀ c ∈ text.head?, isSpace c = true

inductive Fields : List Bytes → Bytes → Prop
  | blanks {blanks : Bytes} : (∀ c ∈ blanks, isSpace c = true) → Fields [] blanks
  | token {blanks token rest : Bytes} {tokens : List Bytes} :
      (∀ c ∈ blanks, isSpace c = true) → Token token → Separates rest →
      Fields tokens rest → Fields (token :: tokens) (blanks ++ token ++ rest)

def statLine (pid comm fields : Bytes) : Bytes :=
  pid ++ bytes " (" ++ comm ++ bytes ")" ++ fields

theorem statLine_eq (pid comm fields : Bytes) :
    statLine pid comm fields =
      (pid ++ [0x20, 0x28] ++ comm) ++ 0x29 :: fields := by
  have hopen : bytes " (" = [0x20, 0x28] := by decide +kernel
  have hclose : bytes ")" = [0x29] := by decide +kernel
  rw [statLine, hopen, hclose, List.append_assoc _ [0x29]]
  rfl

theorem length_statLine (pid comm fields : Bytes) :
    (statLine pid comm fields).length =
      pid.length + comm.length + fields.length + 3 := by
  rw [statLine_eq]
  simp only [List.length_append, List.length_cons, List.length_nil]
  omega

theorem forall_mem_statLine {P : UInt8 → Prop} {pid comm fields : Bytes}
    (hblank : P 0x20) (hopen : P 0x28) (hclose : P 0x29)
    (hpid : ∀ c ∈ pid, P c) (hcomm : ∀ c ∈ comm, P c)
    (hfields : ∀ c ∈ fields, P c) : ∀ c ∈ statLine pid comm fields, P c := by
  rw [statLine_eq]
  simp only [List.forall_mem_append, List.forall_mem_cons]
  exact ⟨⟨⟨hpid, hblank, hopen, List.forall_mem_nil _⟩, hcomm⟩, hclose, hfields⟩

/-- The fields are counted from one, and the first token is the third. -/
def field? (n : Nat) (tokens : List Bytes) : Option Bytes := tokens[n - 3]?

theorem isSpace_plain {c : UInt8} (h : isSpace c = true) : c ≠ 0 ∧ c ≠ 0x29 := by
  refine ⟨?_, ?_⟩
  all_goals
    intro hsame
    rw [hsame] at h
    exact absurd h (by decide)

theorem Fields.plain {tokens : List Bytes} {text : Bytes}
    (h : Fields tokens text) : ∀ c ∈ text, c ≠ 0 ∧ c ≠ 0x29 := by
  induction h with
  | blanks hblanks => exact fun c hc => isSpace_plain (hblanks c hc)
  | token hblanks htoken _ _ ih =>
      refine List.forall_mem_append.mpr
        ⟨List.forall_mem_append.mpr ⟨?_, ?_⟩, ih⟩
      · exact fun c hc => isSpace_plain (hblanks c hc)
      · exact fun c hc => (htoken.plain c hc).2

theorem Fields.nonempty {tokens : List Bytes} {text : Bytes}
    (h : Fields tokens text) : ∀ token ∈ tokens, token ≠ [] := by
  induction h with
  | blanks _ => exact List.forall_mem_nil _
  | token _ htoken _ _ ih =>
      exact List.forall_mem_cons.mpr ⟨htoken.nonempty, ih⟩

theorem strrchr_eq_none {c : UInt8} {text : Bytes} (h : c ∉ text) :
    strrchr c text = none := by
  induction text with
  | nil => rfl
  | cons x text ih =>
      rw [List.mem_cons, not_or] at h
      rw [strrchr, ih h.2]
      exact if_neg (Ne.symm h.1)

theorem strrchr_append {c : UInt8} (front : Bytes) {rest : Bytes}
    (h : c ∉ rest) : strrchr c (front ++ c :: rest) = some (c :: rest) := by
  induction front with
  | nil =>
      rw [List.nil_append, strrchr, strrchr_eq_none h]
      exact if_pos rfl
  | cons x front ih => rw [List.cons_append, strrchr, ih]

/-! The loop over the tokens. -/

theorem scanTokens_blanks {blanks : Bytes}
    (h : ∀ c ∈ blanks, isSpace c = true) (tokenIdx : Nat) :
    scanTokens tokenIdx blanks = none := by
  have hskip : blanks.dropWhile isSpace = [] := List.dropWhile_eq_nil_iff.mpr h
  unfold scanTokens
  split
  · rfl
  · simp_all

theorem scanTokens_token {blanks token rest : Bytes}
    (hblanks : ∀ c ∈ blanks, isSpace c = true) (htoken : Token token)
    (hrest : Separates rest) (tokenIdx : Nat) :
    scanTokens tokenIdx (blanks ++ token ++ rest) =
      if tokenIdx = startTimeField then
        parseToken token
      else
        scanTokens (tokenIdx + 1) rest := by
  obtain ⟨d, token, rfl⟩ := List.exists_cons_of_ne_nil htoken.nonempty
  have hplain : ∀ c ∈ d :: token, (!isSpace c) = true := by
    intro c hc
    rw [(htoken.plain c hc).1, Bool.not_false]
  have hskip : (blanks ++ (d :: token) ++ rest).dropWhile isSpace =
      d :: (token ++ rest) := by
    rw [List.append_assoc, List.cons_append]
    exact dropWhile_span_cons hblanks
      (htoken.plain d List.mem_cons_self).1 (token ++ rest)
  have hends : ∀ c ∈ rest.head?, (!isSpace c) = false := by
    intro c hc
    rw [hrest c hc, Bool.not_true]
  have htake : (d :: (token ++ rest)).takeWhile (!isSpace ·) = d :: token :=
    takeWhile_span hplain hends
  have hdrop : (token ++ rest).dropWhile (!isSpace ·) = rest :=
    dropWhile_span (fun c hc => hplain c (List.mem_cons_of_mem d hc)) hends
  rw [scanTokens]
  split
  · simp_all
  · rename_i c tail hfound
    obtain ⟨rfl, rfl⟩ := List.cons.inj (hskip.symm.trans hfound)
    rw [htake, hdrop]

theorem scanTokens_fields {tokens : List Bytes} {text : Bytes}
    (h : Fields tokens text) {tokenIdx : Nat} (hidx : tokenIdx ≤ startTimeField) :
    scanTokens tokenIdx text =
      (tokens[startTimeField - tokenIdx]?).bind parseToken := by
  induction h generalizing tokenIdx with
  | blanks hblanks => rw [scanTokens_blanks hblanks]; rfl
  | token hblanks htoken hrest _ ih =>
      rw [scanTokens_token hblanks htoken hrest]
      split
      · rename_i hfound
        rw [hfound, Nat.sub_self]
        rfl
      · rename_i hother
        have hnext : startTimeField - tokenIdx =
            startTimeField - (tokenIdx + 1) + 1 := by
          omega
        rw [ih (by omega), hnext, List.getElem?_cons_succ]

theorem strtoull_digits {digits : Bytes}
    (hdigits : ∀ c ∈ digits, isDigit c = true) (hne : digits ≠ [])
    (hsmall : natOfDigits 10 digits < 2 ^ 64) :
    strtoull digits = UInt64.ofNat (natOfDigits 10 digits) := by
  have hread : readDecimal? ([] ++ digits ++ []) = _ :=
    readDecimal?_digits (List.forall_mem_nil _) hdigits hne
      fun c hc => by cases hc
  rw [List.nil_append, List.append_nil] at hread
  rw [strtoull, hread]
  simp only [if_pos hsmall, Bool.false_eq_true, if_false]

theorem parseToken_digits {digits : Bytes}
    (hdigits : ∀ c ∈ digits, isDigit c = true) (hne : digits ≠ [])
    (hshort : digits.length < tokenBufferSize)
    (hsmall : natOfDigits 10 digits < 2 ^ 64) :
    parseToken digits = some (UInt64.ofNat (natOfDigits 10 digits)) := by
  have hlen : (Int32.ofNat digits.length).toInt = digits.length := by
    apply Int32.toInt_ofNat_of_lt
    exact hshort.trans (by decide)
  have hpos := List.length_pos_iff.mpr hne
  rw [parseToken]
  simp only [hlen]
  rw [if_pos (by omega), Int.toNat_natCast, List.take_length,
    strtoull_digits hdigits hne hsmall]

theorem parse_statLine {pid comm fields : Bytes} {tokens : List Bytes}
    (hpid : 0 ∉ pid) (hcomm : 0 ∉ comm) (h : Fields tokens fields) :
    parseStartTimeFromStatLine (some (statLine pid comm fields)) =
      (field? startTimeField tokens).bind parseToken := by
  have hnul : ∀ c ∈ statLine pid comm fields, c ≠ 0 := by
    refine forall_mem_statLine (by decide) (by decide) (by decide) ?_ ?_ ?_
    · exact fun c hc hzero => hpid (hzero ▸ hc)
    · exact fun c hc hzero => hcomm (hzero ▸ hc)
    · exact fun c hc => (h.plain c hc).1
  have hlast : (0x29 : UInt8) ∉ fields := fun hmem => (h.plain _ hmem).2 rfl
  have htext : CString.text (statLine pid comm fields) =
      statLine pid comm fields :=
    List.takeWhile_eq_self_iff.mpr (by simpa using hnul)
  simp only [parseStartTimeFromStatLine]
  rw [htext, statLine_eq, strrchr_append _ hlast]
  exact scanTokens_fields h (by decide)

/-- The start time is found behind any command name, and only where there is a
start time. -/
theorem parseStartTime_eq {pid comm fields : Bytes} {tokens : List Bytes}
    (hpid : 0 ∉ pid) (hcomm : 0 ∉ comm) (h : Fields tokens fields) :
    (∀ digits, field? startTimeField tokens = some digits →
      (∀ c ∈ digits, isDigit c = true) → digits.length < 64 →
      natOfDigits 10 digits < 2 ^ 64 →
      parseStartTimeFromStatLine (some (statLine pid comm fields)) =
        some (UInt64.ofNat (natOfDigits 10 digits))) ∧
      (tokens.length + 2 < startTimeField →
        parseStartTimeFromStatLine (some (statLine pid comm fields)) =
          none) := by
  rw [parse_statLine hpid hcomm h]
  refine ⟨?_, ?_⟩
  · intro digits hfield hdigits hshort hsmall
    have hne : digits ≠ [] := (h.nonempty digits (List.mem_of_getElem? hfield))
    rw [hfield]
    exact parseToken_digits hdigits hne hshort hsmall
  · intro hfew
    have hnone : field? startTimeField tokens = none := by
      rw [field?, List.getElem?_eq_none_iff]
      change tokens.length + 2 < 22 at hfew
      change tokens.length ≤ 22 - 3
      omega
    rw [hnone]
    rfl

/-- The tokens with one space before each. -/
def spaced (tokens : List Bytes) : Bytes := tokens.flatMap (0x20 :: ·)

theorem Fields.spaced {tokens : List Bytes}
    (h : ∀ token ∈ tokens, Token token) :
    Fields tokens (StartTime.spaced tokens) := by
  induction tokens with
  | nil => exact .blanks (List.forall_mem_nil _)
  | cons token tokens ih =>
      obtain ⟨htoken, htokens⟩ := List.forall_mem_cons.mp h
      have hblank : ∀ c ∈ [(0x20 : UInt8)], isSpace c = true :=
        List.forall_mem_singleton.mpr rfl
      refine .token hblank htoken ?_ (ih htokens)
      cases tokens with
      | nil => exact fun c hc => by cases hc
      | cons next tokens => exact forall_mem_head?_cons rfl

theorem Fields.concat {tokens : List Bytes} {fields : Bytes}
    (h : Fields tokens fields) : Fields tokens (fields ++ [0x0a]) := by
  induction h with
  | blanks hblanks =>
      exact .blanks (List.forall_mem_append.mpr
        ⟨hblanks, List.forall_mem_singleton.mpr rfl⟩)
  | @token blanks token rest tokens hblanks htoken hrest _ ih =>
      rw [List.append_assoc]
      refine .token hblanks htoken ?_ ih
      cases rest with
      | nil => exact forall_mem_head?_cons rfl
      | cons c rest => exact hrest

theorem parseStartTime_eq_parenthesis :
    parseStartTimeFromStatLine (some (statLine [0x39] [0x29, 0x20, 0x28]
      (spaced (List.replicate 19 [0x53] ++ [[0x37, 0x36]])))) = some 76 := by
  have htokens : ∀ token ∈ List.replicate 19 [0x53] ++ [[0x37, 0x36]],
      Token token := by
    intro token htoken
    rcases List.mem_append.mp htoken with hstate | htime
    · rw [List.eq_of_mem_replicate hstate]
      decide
    · rw [List.mem_singleton.mp htime]
      decide
  exact (parseStartTime_eq (by decide) (by decide)
    (Fields.spaced htokens)).1 [0x37, 0x36] rfl
    (List.forall_mem_cons.mpr ⟨rfl, List.forall_mem_singleton.mpr rfl⟩)
    (by decide) (by decide)

end StartTime

end HeidiKernel
