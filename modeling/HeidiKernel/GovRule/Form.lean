import HeidiKernel.GovRule.Tidy

namespace HeidiKernel.Gov

open HeidiKernel.Data

/-! Which payloads are answered as their form asks for. -/

def HasPid (doc : List Member) : Prop :=
  ∃ text, .literal ⟨bytes "pid", text⟩ ∈ doc

theorem hasPid_iff {doc : List Member} (hdoc : ∀ m ∈ doc, m.Accepted) :
    (doc.foldl storeMember {}).hasPid = true ↔ HasPid doc := by
  have hlast := draft_pid hdoc
  constructor
  · intro hpid
    rw [if_pos hpid] at hlast
    obtain ⟨text, htext, _⟩ := Option.map_eq_some_iff.mp hlast.symm
    obtain ⟨m, hm, hunder⟩ :=
      List.mem_filterMap.mp (List.mem_of_getLast? htext)
    cases m with
    | object _ _ => contradiction
    | literal m =>
        obtain ⟨key, text'⟩ := m
        by_cases hkey : key = bytes "pid"
        · subst hkey
          exact ⟨text', hm⟩
        · simp [Member.textUnder, Literal.under, hkey] at hunder
  · rintro ⟨text, hm⟩
    by_contra hpid
    rw [if_neg hpid] at hlast
    have hnone : lastText (bytes "pid") doc = none :=
      Option.map_eq_none_iff.mp hlast.symm
    rw [lastText, List.getLast?_eq_none_iff, List.filterMap_eq_nil_iff]
      at hnone
    have hunder := hnone _ hm
    simp [Member.textUnder, Literal.under] at hunder

/-- What is answered with `ACK` is well-formed, and what is not well-formed is
answered with a NACK. -/
structure AnsweredByForm (payload : Bytes) : Prop where
  ack : ∀ result, parseGovApply payload = .ok result → result.ack = .ack →
    WellFormed payload
  nack : ¬WellFormed payload →
    ∃ result, parseGovApply payload = .ok result ∧ result.ack ≠ .ack

theorem BlankPayload.not_wellFormed {payload : Bytes}
    (h : BlankPayload payload) : ¬WellFormed payload := by
  rintro ⟨inside, htrim, _⟩
  rw [trimmed_eq_nil_iff.mpr h.2.2] at htrim
  contradiction

theorem parseGovApply_ack_of_reads {payload : Bytes} {doc : List Member}
    (h : Reads payload doc) (hpid : HasPid doc) :
    ∃ result, parseGovApply payload = .ok result ∧ result.ack = .ack := by
  have hdraft := (hasPid_iff h.accepted).mpr hpid
  rw [parseGovApply_of_reads h]
  exact ⟨_, if_neg (by simp [hdraft]), rfl⟩

theorem wellFormed_of_ack {payload : Bytes}
    (htidy : ∀ doc, Reads payload doc → HasPid doc → TidyReads payload doc)
    {result : ParseResult} (h : parseGovApply payload = .ok result)
    (hack : result.ack = .ack) : WellFormed payload := by
  obtain ⟨doc, hreads, hpid, _⟩ := exists_reads_of_ack h hack
  exact wellFormed_of_tidyReads
    (htidy doc hreads ((hasPid_iff hreads.accepted).mp hpid))

/-- A payload is answered by its form unless it is blank, or overruns although
it is malformed, or is accepted with a comma or a brace missing. -/
theorem answeredByForm_iff (payload : Bytes) :
    (AnsweredByForm payload ↔
      ¬BlankPayload payload ∧
        (OverrunPayload payload → WellFormed payload) ∧
        ∀ doc, Reads payload doc → HasPid doc → TidyReads payload doc) ∧
      (WellFormed payload → Balanced (trimmed payload)) := by
  refine ⟨?_, WellFormed.balanced⟩
  constructor
  · intro h
    refine ⟨?_, ?_, ?_⟩
    · intro hblank
      obtain ⟨result, hresult, _⟩ := h.nack hblank.not_wellFormed
      rw [parseGovApply_of_blank hblank] at hresult
      contradiction
    · intro hoverrun
      by_contra hill
      obtain ⟨result, hresult, _⟩ := h.nack hill
      obtain ⟨f, hfault⟩ := parseGovApply_of_overrun hoverrun
      rw [hfault] at hresult
      contradiction
    · intro doc hreads hpid
      obtain ⟨result, hresult, hack⟩ :=
        parseGovApply_ack_of_reads hreads hpid
      exact tidyReads_of_wellFormed hreads (h.ack result hresult hack)
  · rintro ⟨hblank, hoverrun, htidy⟩
    refine ⟨fun result hresult hack => wellFormed_of_ack htidy hresult hack, ?_⟩
    intro hill
    cases hresult : parseGovApply payload with
    | error f =>
      rcases (parseGovApply_fails_iff payload).mp ⟨f, hresult⟩ with h | h
      · exact absurd h hblank
      · exact absurd (hoverrun h) hill
    | ok result =>
      exact ⟨result, rfl, mt (wellFormed_of_ack htidy hresult) hill⟩

/-- A comma is missing here. -/
def missingComma : Bytes := bytes "\x7b\"pid\":1\"oom_score_adj\":5\x7d"

/-- A brace is missing here, and the limit loses a digit. -/
def missingBrace : Bytes := bytes "\x7b\"pid\":1,\"cpu\":\x7b\"nice\":55\x7d"

theorem missingComma_not_wellFormed : ¬WellFormed missingComma := by
  rintro ⟨inside, htrim, hmembers⟩
  have hinside : trimmed missingComma =
      lbrace :: bytes "\"pid\":1\"oom_score_adj\":5\x7d" := by
    decide +kernel
  obtain rfl := (List.cons.inj (hinside.symm.trans htrim)).2
  have hkey : Quoted (bytes "\"pid\":1\"oom_score_adj\":5\x7d") (bytes "pid")
      (bytes ":1\"oom_score_adj\":5\x7d") :=
    quoted_of_parseKey (by decide +kernel)
  have hcolon : Colon (bytes ":1\"oom_score_adj\":5\x7d")
      (bytes "1\"oom_score_adj\":5\x7d") :=
    ⟨[], blank_nil, by decide +kernel⟩
  have hnumber : parseIntValue (bytes "1\"oom_score_adj\":5\x7d") =
      .ok (some 1, bytes "\"oom_score_adj\":5\x7d") := by
    decide +kernel
  obtain ⟨text, htoken, _⟩ := parseIntValue_scans.eq_some_iff.mp hnumber
  obtain ⟨afterValue, hread, hgoes⟩ := hmembers.of_quoted hkey hcolon
  have hnext : After quote afterValue (bytes "oom_score_adj\":5\x7d") := by
    refine ⟨[], blank_nil, ?_⟩
    cases hread with
    | object htable _ _ =>
        have hnever := applyTable_pid.symm.trans htable
        simp at hnever
    | literal hkind htoken' =>
        obtain rfl := Value.literal.inj
          (Option.some.inj (applyTable_pid.symm.trans hkind))
        rw [← (Signed.unique htoken htoken').2]
        decide +kernel
  rcases hgoes with hclose | ⟨_, hcomma, _⟩
  · exact absurd (hclose.unique (by decide) (by decide) hnext).1 (by decide)
  · exact absurd (hcomma.unique (by decide) (by decide) hnext).1 (by decide)

theorem malformed_payloads_accepted :
    parseGovApply missingComma =
        .ok { success := true, ack := .ack,
              msg := { pid := 1, oomScoreAdj := some 5 } } ∧
      parseGovApply missingBrace =
        .ok { success := true, ack := .ack,
              msg := { pid := 1, cpu := some { nice := some 5 } } } ∧
      ¬∀ payload, AnsweredByForm payload := by
  have hcomma : parseGovApply missingComma =
      .ok { success := true, ack := .ack,
            msg := { pid := 1, oomScoreAdj := some 5 } } := by
    decide +kernel
  refine ⟨hcomma, by decide +kernel, fun h => ?_⟩
  exact missingComma_not_wellFormed ((h missingComma).ack _ hcomma rfl)

end HeidiKernel.Gov
