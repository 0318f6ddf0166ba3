import HeidiKernel.GovRule.Malformed
import HeidiKernel.GovRule.Spacing

namespace HeidiKernel.Gov

open HeidiKernel.Data

/-! Where the blanks of a payload matter: before the brace of a sub-object. -/

def Gap (s : Bytes) : Prop :=
  ∃ blank inside, Blank blank ∧ blank ≠ [] ∧ s = blank ++ lbrace :: inside

/-- After some members comes a sub-object behind a blank. -/
inductive GapAfter : Nat → Bytes → Prop
  | here {s key afterKey afterColon : Bytes} {table : Table} :
      Quoted s key afterKey → Colon afterKey afterColon →
      applyTable key = some (.object table) → Gap afterColon → GapAfter 0 s
  | next {n : Nat} {s key afterKey afterColon afterValue : Bytes}
      {m : Member} :
      Quoted s key afterKey → Colon afterKey afterColon →
      ApplyItem key afterColon m afterValue →
      GapAfter n (memberEnd afterValue) → GapAfter (n + 1) s

theorem Gap.not_open {s : Bytes} (h : Gap s) (inside : Bytes) :
    s ≠ lbrace :: inside := by
  obtain ⟨blank, inside', hblank, hne, rfl⟩ := h
  intro heq
  cases blank with
  | nil => contradiction
  | cons c blank =>
      obtain ⟨rfl, _⟩ := List.cons.inj heq
      have hspace := hblank lbrace List.mem_cons_self
      contradiction

theorem opens_of_sameGap {s s' : Bytes} (h : tokens s = tokens s')
    (hgap : Gap s ↔ Gap s') {inside : Bytes} (hs : s = lbrace :: inside) :
    ∃ inside', s' = lbrace :: inside' := by
  have hview : After lbrace s inside := ⟨[], blank_nil, hs⟩
  obtain ⟨inside', ⟨blank, hblank, rfl⟩, _⟩ := hview.alike (by decide) h
  cases blank with
  | nil => exact ⟨inside', rfl⟩
  | cons c blank =>
      have hbehind := hgap.mpr
        ⟨c :: blank, inside', hblank, List.cons_ne_nil _ _, rfl⟩
      exact absurd hs (hbehind.not_open inside)

theorem ApplyItem.rest_unique {key s rest rest' : Bytes} {m m' : Member}
    (h : ApplyItem key s m rest) (h' : ApplyItem key s m' rest') :
    rest = rest' := by
  have hread {m : Member} {rest : Bytes} (h : ApplyItem key s m rest) :
      applyField key s {} = .ok ⟨rest, storeMember {} m⟩ :=
    applyField_spec.accepts.mpr ⟨m, h, rfl⟩
  have heq := (hread h).symm.trans (hread h')
  exact congrArg Cursor.view (Except.ok.inj heq)

section GapAfter

variable {n : Nat} {s key afterKey afterColon afterValue : Bytes}
  {table : Table} {m : Member} (hkey : Quoted s key afterKey)
  (hcolon : Colon afterKey afterColon)

include hkey hcolon

theorem gapAfter_zero_iff (htable : applyTable key = some (.object table)) :
    GapAfter 0 s ↔ Gap afterColon := by
  constructor
  · rintro (⟨hkey', hcolon', _, hgap⟩ | _)
    obtain ⟨_, rfl⟩ := hkey.unique hkey'
    rw [hcolon.unique hcolon']
    exact hgap
  · exact .here hkey hcolon htable

theorem gapAfter_succ_iff (hitem : ApplyItem key afterColon m afterValue) :
    GapAfter (n + 1) s ↔ GapAfter n (memberEnd afterValue) := by
  constructor
  · intro hgap
    cases hgap with
    | next hkey' hcolon' hitem' hgap =>
        obtain ⟨rfl, rfl⟩ := hkey.unique hkey'
        obtain rfl := hcolon.unique hcolon'
        rw [hitem.rest_unique hitem']
        exact hgap
  · exact .next hkey hcolon hitem

end GapAfter

/-- A sub-object behind a blank is malformed. -/
theorem GapAfter.breaks {n : Nat} {s : Bytes} (h : GapAfter n s) :
    ∃ doc left, Passes ApplyItem s doc left ∧
      Breaks MalformedMember left := by
  induction h with
  | here hkey hcolon htable hgap =>
      exact ⟨[], _, .here,
        .value hkey hcolon (.brace htable hgap.not_open)⟩
  | next hkey hcolon hitem _ ih =>
      obtain ⟨doc, left, hpasses, hbreaks⟩ := ih
      exact ⟨_ :: doc, left, .next hkey hcolon hitem hpasses, hbreaks⟩

/-! Two payloads read in step. -/

structure InStep (c c' : Cursor Draft) : Prop where
  level : SameLevel c c'
  gaps : ∀ n, GapAfter n c.view ↔ GapAfter n c'.view

theorem InStep.step {keyDetail colonDetail : Bytes} {c c' : Cursor Draft}
    (h : InStep c c') :
    Alike (Option.Rel InStep)
      (memberStep keyDetail colonDetail applyField c)
      (memberStep keyDetail colonDetail applyField c') := by
  have hsame : Alike (Option.Rel SameLevel)
      (memberStep keyDetail colonDetail applyField c)
      (memberStep keyDetail colonDetail applyField c') := by
    refine memberStep_alike h.level ?_
    intro key afterKey afterKey' afterColon afterColon' hkey hcolon hkey'
      hcolon' hafter
    refine applyField_spaced c.value hafter ?_
    intro table htable
    have hgap : Gap afterColon ↔ Gap afterColon' := by
      rw [← gapAfter_zero_iff hkey hcolon htable,
        ← gapAfter_zero_iff hkey' hcolon' htable]
      exact h.gaps 0
    constructor
    · rintro ⟨inside, hinside⟩
      exact opens_of_sameGap hafter hgap hinside
    · rintro ⟨inside, hinside⟩
      exact opens_of_sameGap hafter.symm hgap.symm hinside
  refine hsame.results.mono ?_
  rintro next next' ⟨hrel, hstep, hstep'⟩
  cases hrel with
  | none => exact .none
  | some hlevel =>
      refine .some ⟨hlevel, ?_⟩
      intro n
      obtain ⟨m, key, afterKey, afterColon, afterValue, hkey, hcolon, hitem,
        rfl⟩ := applyField_spec.memberStep_moves_iff.mp hstep
      obtain ⟨m', key', afterKey', afterColon', afterValue', hkey', hcolon',
        hitem', rfl⟩ := applyField_spec.memberStep_moves_iff.mp hstep'
      rw [← gapAfter_succ_iff hkey hcolon hitem,
        ← gapAfter_succ_iff hkey' hcolon' hitem']
      exact h.gaps (n + 1)

theorem applyMembers_inStep {body body' : Bytes} (h : SameView body body')
    (hgaps : ∀ n, GapAfter n body ↔ GapAfter n body') :
    Alike InStep (applyMembers body) (applyMembers body') :=
  members_alike applyField_spec (fun _ _ h => h.level.value)
    (fun _ _ h => h.step) ⟨⟨h, rfl⟩, hgaps⟩

theorem conclude_inStep {run run' : Except (Exit × Draft) (Cursor Draft)}
    (h : Alike InStep run run') : conclude run = conclude run' := by
  cases h with
  | error e => rfl
  | @ok c c' hstep =>
      obtain ⟨view, draft⟩ := c
      obtain ⟨view', draft'⟩ := c'
      obtain rfl : draft = draft' := hstep.level.value
      rfl

/-! The bodies of two payloads. -/

theorem trimmed_last {s front : Bytes} {c : UInt8}
    (h : trimmed s = front ++ [c]) : isWhitespace c = false := by
  have hsuffix : front ++ [c] <:+ trimEnd s := by
    rw [← h]
    exact trimStart_suffix _
  obtain ⟨init, hinit⟩ := hsuffix
  have hne : trimEnd s ≠ [] := by
    rw [← hinit]
    simp
  obtain ⟨inner, last, hend, hlast⟩ := exists_last hne
  rw [hend, ← List.append_assoc] at hinit
  obtain ⟨_, hc⟩ := List.append_inj' hinit rfl
  rw [List.singleton_inj.mp hc]
  exact hlast

theorem Body.alike {p q body : Bytes} (h : Body p body)
    (hq : q.length ≤ 512) (htokens : tokens p = tokens q) :
    ∃ body', Body q body' ∧ SameView body body' := by
  obtain ⟨inner, htrim, rfl⟩ := h.braces
  have hsame : tokens (trimmed p) = tokens (trimmed q) := by
    rw [tokens_trimmed, tokens_trimmed, htokens]
  have hopen : After lbrace (trimmed p) (inner ++ [rbrace]) :=
    ⟨[], blank_nil, htrim⟩
  obtain ⟨rest, hopen', hrest⟩ := hopen.alike (by decide) hsame
  have hstart : trimmed q = lbrace :: rest := by
    rw [← trimStart_of_after (by decide) hopen']
    exact (List.dropWhile_idempotent isWhitespace _).symm
  rcases List.eq_nil_or_concat rest with rfl | ⟨inner', last, rfl⟩
  · have hblank := tokens_eq_nil_iff.mp
      (hrest.trans (tokens_eq_nil_iff.mpr blank_nil))
    have hspace := hblank rbrace (by simp)
    contradiction
  · rw [List.concat_eq_append] at hrest hstart
    have hlast := trimmed_last (hstart.trans (List.cons_append ..).symm)
    obtain ⟨rfl, hinner⟩ := alike_init (by decide) hlast hrest
    exact ⟨trimmed inner', ⟨hq, inner', hstart, rfl⟩,
      sameView_trimmed hinner⟩

theorem Body.unique {p body body' : Bytes} (h : Body p body)
    (h' : Body p body') : body = body' := by
  obtain ⟨inner, htrim, rfl⟩ := h.braces
  obtain ⟨inner', htrim', rfl⟩ := h'.braces
  have heq := List.append_cancel_right
    (List.cons.inj (htrim.symm.trans htrim')).2
  rw [heq]

/-! The verdict. -/

def verdict (payload : Bytes) :
    Except Fault (Bool × AckCode × GovApplyMsg) := do
  let result ← parseGovApply payload
  return (result.success, result.ack, result.msg)

/-- The members of a payload lead to a sub-object behind a blank. -/
def GapPayload (n : Nat) (payload : Bytes) : Prop :=
  ∃ body, Body payload body ∧ GapAfter n body

/-- The members of a payload make up a message and then it is malformed. -/
def BreaksOff (payload : Bytes) (msg : GovApplyMsg) : Prop :=
  ∃ body doc left, Body payload body ∧ Passes ApplyItem body doc left ∧
    Breaks MalformedMember left ∧ msg = (doc.foldl storeMember {}).msg

theorem BreaksOff.verdict {payload : Bytes} {msg : GovApplyMsg}
    (h : BreaksOff payload msg) :
    verdict payload = .ok (false, .nackParseError, msg) := by
  obtain ⟨body, doc, left, hbody, hpasses, hbreaks, rfl⟩ := h
  obtain ⟨detail, hrun⟩ := applyMembers_parseError_iff.mpr
    ⟨doc, left, hpasses, hbreaks, rfl⟩
  simp [Gov.verdict, parseGovApply_of_body hbody, hrun, conclude]

theorem conclude_parseError {run : Except (Exit × Draft) (Cursor Draft)}
    {result : ParseResult} (h : conclude run = .ok result)
    (hack : result.ack = .nackParseError) :
    ∃ detail draft, run = .error (.nack .nackParseError detail, draft) ∧
      result.msg = draft.msg := by
  rcases run with ⟨f | ⟨code, detail⟩, draft⟩ | ⟨view, draft⟩
  · simp [conclude] at h
  · cases h
    obtain rfl : code = .nackParseError := hack
    exact ⟨detail, draft, rfl, rfl⟩
  · cases hpid : draft.hasPid <;> simp only [conclude, hpid] at h <;>
      cases h <;> contradiction

theorem breaksOff_of_verdict {payload body : Bytes} {msg : GovApplyMsg}
    (hbody : Body payload body)
    (h : verdict payload = .ok (false, .nackParseError, msg)) :
    BreaksOff payload msg := by
  obtain ⟨result, hresult, heq⟩ := bind_eq_ok.mp h
  obtain ⟨_, hack, rfl⟩ : result.success = false ∧
      result.ack = .nackParseError ∧ result.msg = msg := by
    simpa using heq
  rw [parseGovApply_of_body hbody] at hresult
  obtain ⟨detail, draft, hrun, hmsg⟩ := conclude_parseError hresult hack
  obtain ⟨doc, left, hpasses, hbreaks, rfl⟩ :=
    applyMembers_parseError_iff.mp ⟨detail, hrun⟩
  exact ⟨body, doc, left, hbody, hpasses, hbreaks, hmsg⟩

section Respaced

variable {p q : Bytes} (hp : p.length ≤ 512) (hq : q.length ≤ 512)
  (htokens : tokens p = tokens q)

include hp hq htokens

theorem parseGovApply_inStep (hempty : p = [] ↔ q = [])
    (hgaps : ∀ n, GapPayload n p ↔ GapPayload n q) :
    parseGovApply p = parseGovApply q := by
  by_cases hnil : p = []
  · rw [hnil, hempty.mp hnil]
  have hnil' := mt hempty.mpr hnil
  have hblank : Blank p ↔ Blank q := by
    rw [← tokens_eq_nil_iff, htokens, tokens_eq_nil_iff]
  by_cases hspace : Blank p
  · rw [parseGovApply_of_blank ⟨hp, hnil, hspace⟩,
      parseGovApply_of_blank ⟨hq, hnil', hblank.mp hspace⟩]
  by_cases hbody : ∃ body, Body p body
  · obtain ⟨body, hbody⟩ := hbody
    obtain ⟨body', hbody', hview⟩ := hbody.alike hq htokens
    rw [parseGovApply_of_body hbody, parseGovApply_of_body hbody']
    refine conclude_inStep (applyMembers_inStep hview fun n => ?_)
    constructor
    · intro hgap
      obtain ⟨other, hother, hgap⟩ := (hgaps n).mp ⟨body, hbody, hgap⟩
      rw [hbody'.unique hother]
      exact hgap
    · intro hgap
      obtain ⟨other, hother, hgap⟩ := (hgaps n).mpr ⟨body', hbody', hgap⟩
      rw [hbody.unique hother]
      exact hgap
  · rw [parseGovApply_of_not_object hp hspace fun body h => hbody ⟨body, h⟩,
      parseGovApply_of_not_object hq (mt hblank.mpr hspace)]
    intro body h
    obtain ⟨body', hbody', _⟩ := h.alike hp htokens.symm
    exact hbody ⟨body', hbody'⟩

omit hp in
theorem GapPayload.breaksOff {n : Nat} (h : GapPayload n p)
    (hverdict : verdict p = verdict q) :
    ∃ msg, BreaksOff p msg ∧ BreaksOff q msg := by
  obtain ⟨body, hbody, hgap⟩ := h
  obtain ⟨doc, left, hpasses, hbreaks⟩ := hgap.breaks
  have hoff : BreaksOff p (doc.foldl storeMember {}).msg :=
    ⟨body, doc, left, hbody, hpasses, hbreaks, rfl⟩
  obtain ⟨body', hbody', _⟩ := hbody.alike hq htokens
  exact ⟨_, hoff, breaksOff_of_verdict hbody' (hverdict ▸ hoff.verdict)⟩

omit hp in
theorem eq_nil_of_verdict (hverdict : verdict p = verdict q) (hnil : p = []) :
    q = [] := by
  by_contra hne
  subst hnil
  have hblank : Blank q := by
    rw [← tokens_eq_nil_iff, ← htokens, tokens_eq_nil_iff]
    exact blank_nil
  have hfault : verdict q = .error .front := by
    simp [verdict, parseGovApply_of_blank ⟨hq, hne, hblank⟩]
  rw [hfault] at hverdict
  contradiction

/-- Blanks between tokens only matter before the brace of a sub-object, or
where they are all there is; there they do, unless the payload is malformed
anyway. -/
theorem verdict_respaced_iff :
    verdict p = verdict q ↔ (p = [] ↔ q = []) ∧
      ((∀ n, GapPayload n p ↔ GapPayload n q) ∨
        ∃ msg, BreaksOff p msg ∧ BreaksOff q msg) := by
  constructor
  · intro hverdict
    refine ⟨⟨eq_nil_of_verdict hq htokens hverdict,
      eq_nil_of_verdict hp htokens.symm hverdict.symm⟩, ?_⟩
    by_cases hgap : ∃ n, GapPayload n p ∨ GapPayload n q
    · right
      obtain ⟨n, hgap | hgap⟩ := hgap
      · exact hgap.breaksOff hq htokens hverdict
      · obtain ⟨msg, hoff, hoff'⟩ :=
          hgap.breaksOff hp htokens.symm hverdict.symm
        exact ⟨msg, hoff', hoff⟩
    · left
      intro n
      exact iff_of_false (fun h => hgap ⟨n, .inl h⟩)
        fun h => hgap ⟨n, .inr h⟩
  · rintro ⟨hempty, hgaps | ⟨msg, hoff, hoff'⟩⟩
    · rw [verdict, parseGovApply_inStep hp hq htokens hempty hgaps]
      rfl
    · rw [hoff.verdict, hoff'.verdict]

end Respaced

/-- The object of `docs/GOVERNOR.md`, line by line. -/
def schemaLines : List String :=
  ["\x7b",
    "  \"pid\": 1234,",
    "  \"cpu\": \x7b",
    "    \"affinity\": \"0-3\",",
    "    \"nice\": 10,",
    "    \"max_pct\": 80",
    "  \x7d,",
    "  \"mem\": \x7b",
    "    \"max_bytes\": 8589934592",
    "  \x7d,",
    "  \"pids\": \x7b",
    "    \"max\": 256",
    "  \x7d,",
    "  \"rlim\": \x7b",
    "    \"nofile_soft\": 1024,",
    "    \"nofile_hard\": 4096,",
    "    \"core_soft\": 0,",
    "    \"core_hard\": 0",
    "  \x7d,",
    "  \"oom_score_adj\": 500",
    "\x7d"]

def prettyObject : Bytes :=
  schemaLines.flatMap fun line => bytes line ++ bytes "\n"

/-- The same object without its blanks. -/
def compactObject : Bytes := prettyObject.filter (!isWhitespace ·)

/-- What it spells. -/
def schemaMsg : GovApplyMsg where
  pid := 1234
  cpu := some { affinity := some (bytes "0-3"), nice := some 10
                maxPct := some 80 }
  mem := some { maxBytes := some 8589934592 }
  pids := some { max := some 256 }
  rlim := some { nofileSoft := some 1024, nofileHard := some 4096
                 coreSoft := some 0, coreHard := some 0 }
  oomScoreAdj := some 500

theorem schema_short :
    prettyObject.length ≤ 512 ∧ compactObject.length ≤ 512 := by
  decide +kernel

theorem schema_tokens : tokens prettyObject = tokens compactObject := by
  decide +kernel

theorem verdict_respaced_schema :
    verdict prettyObject = verdict compactObject ↔
      (prettyObject = [] ↔ compactObject = []) ∧
        ((∀ n, GapPayload n prettyObject ↔ GapPayload n compactObject) ∨
          ∃ msg, BreaksOff prettyObject msg ∧ BreaksOff compactObject msg) :=
  verdict_respaced_iff schema_short.1 schema_short.2 schema_tokens

theorem respaced_verdict_differs :
    (¬∀ p q, p.length ≤ 512 → q.length ≤ 512 → tokens p = tokens q →
      verdict p = verdict q) ∧
      tokens prettyObject = tokens compactObject ∧
      verdict prettyObject =
        .ok (false, .nackParseError, { pid := 1234 }) ∧
      verdict compactObject = .ok (true, .ack, schemaMsg) := by
  have hpretty : verdict prettyObject =
      .ok (false, .nackParseError, { pid := 1234 }) := by
    decide +kernel
  have hcompact : verdict compactObject = .ok (true, .ack, schemaMsg) := by
    decide +kernel
  refine ⟨?_, schema_tokens, hpretty, hcompact⟩
  intro h
  have hsame := h _ _ schema_short.1 schema_short.2 schema_tokens
  rw [hpretty, hcompact] at hsame
  contradiction

end HeidiKernel.Gov
