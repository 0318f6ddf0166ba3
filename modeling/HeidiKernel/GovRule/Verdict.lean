import HeidiKernel.GovRule.Apply

namespace HeidiKernel.Gov

open HeidiKernel.Data

/-! The payload as a whole. -/

theorem trimStart_eq_nil_iff {s : Bytes} : trimStart s = [] ↔ Blank s := by
  unfold trimStart Blank
  rw [List.dropWhile_eq_nil_iff]

theorem trimmed_eq_nil_iff {s : Bytes} : trimmed s = [] ↔ Blank s := by
  rw [trimmed, trimStart_eq_nil_iff]
  constructor
  · intro h
    apply trimEnd_eq_nil_iff.mp
    by_contra hne
    exact List.rdropWhile_last_not isWhitespace s hne
      (h _ (List.getLast_mem hne))
  · intro h
    rw [trimEnd_eq_nil_iff.mpr h]
    exact fun _ hc => absurd hc List.not_mem_nil

abbrev applyMembers (body : Bytes) :
    Except (Exit × Draft) (Cursor Draft) :=
  members (bytes "failed to parse key") (bytes "missing colon after key")
    applyField ⟨body, {}⟩

/-- The first two checks let a payload of an allowed length pass. -/
theorem passes_length {payload : Bytes} (hshort : payload.length ≤ 512)
    (hne : payload ≠ []) :
    ¬kMaxPayloadSize < payload.length ∧ payload.isEmpty = false := by
  refine ⟨?_, by simpa using hne⟩
  rw [kMaxPayloadSize]
  exact Nat.not_lt.mpr hshort

theorem parseGovApply_of_body {payload body : Bytes}
    (h : Body payload body) :
    parseGovApply payload = conclude (applyMembers body) := by
  obtain ⟨inner, htrim, rfl⟩ := h.braces
  have hne : payload ≠ [] := by
    intro hnil
    rw [hnil] at htrim
    cases htrim
  obtain ⟨hlen, hempty⟩ := passes_length h.short hne
  have hback : View.back (lbrace :: (inner ++ [rbrace])) = .ok rbrace := by
    rw [← List.cons_append]
    exact View.back_concat _ _
  simp [parseGovApply, hlen, hempty, trim_eq, htrim, hback,
    View.removeSuffix_one_concat]

theorem parseGovApply_of_blank {payload : Bytes} (h : BlankPayload payload) :
    parseGovApply payload = .error .front := by
  obtain ⟨hshort, hne, hblank⟩ := h
  obtain ⟨hlen, hempty⟩ := passes_length hshort hne
  simp [parseGovApply, hlen, hempty, trim_eq, trimmed_eq_nil_iff.mpr hblank,
    View.front]

/-- A payload that is not in braces. -/
theorem parseGovApply_of_not_object {payload : Bytes}
    (hshort : payload.length ≤ 512) (hsolid : ¬Blank payload)
    (hnot : ∀ body, ¬Body payload body) :
    parseGovApply payload =
      .ok { ack := .nackParseError
            errorDetail := bytes "expected JSON object" } := by
  have hne : payload ≠ [] := by
    intro hnil
    rw [hnil] at hsolid
    exact hsolid (List.forall_mem_nil _)
  obtain ⟨hlen, hempty⟩ := passes_length hshort hne
  cases htrim : trimmed payload with
  | nil => exact absurd (trimmed_eq_nil_iff.mp htrim) hsolid
  | cons c s =>
      by_cases hc : c = lbrace
      · subst hc
        obtain ⟨init, last, hlast⟩ : ∃ init last, lbrace :: s = init ++ [last] :=
          ⟨_, _, (List.dropLast_append_getLast
            (List.cons_ne_nil lbrace s)).symm⟩
        have hne : last ≠ rbrace := by
          rintro rfl
          cases init with
          | nil => exact absurd (List.cons.inj hlast).1 (by decide)
          | cons c' inner =>
              obtain ⟨rfl, rfl⟩ := List.cons.inj hlast
              exact hnot _ ⟨hshort, inner, htrim, rfl⟩
        have hback : View.back (lbrace :: s) = .ok last := by
          rw [hlast, View.back_concat]
        simp [parseGovApply, hlen, hempty, trim_eq, htrim, hback, hne]
      · simp [parseGovApply, hlen, hempty, trim_eq, htrim, hc]

/-- A payload is blank, has a body, or is turned down at once. -/
theorem payload_cases (payload : Bytes) :
    BlankPayload payload ∨ (∃ body, Body payload body) ∨
      ∃ result, parseGovApply payload = .ok result ∧ result.ack ≠ .ack := by
  by_cases hlen : kMaxPayloadSize < payload.length
  · refine .inr (.inr ⟨{ ack := .nackInvalidPayload
                         errorDetail := bytes "payload exceeds 512 bytes" },
      ?_, by decide⟩)
    rw [parseGovApply, if_pos hlen]
    rfl
  have hshort : payload.length ≤ 512 := by
    simpa [kMaxPayloadSize] using hlen
  by_cases hempty : payload = []
  · subst hempty
    exact .inr (.inr ⟨_, rfl, by decide⟩)
  by_cases hblank : Blank payload
  · exact .inl ⟨hshort, hempty, hblank⟩
  right
  by_cases hbody : ∃ body, Body payload body
  · exact .inl hbody
  · exact .inr ⟨_, parseGovApply_of_not_object hshort hblank fun body h =>
      hbody ⟨body, h⟩, by decide⟩

theorem applyMembers_faults_iff {body : Bytes} :
    (∃ f draft, applyMembers body = .error (.fault f, draft)) ↔
      Overrun ApplyItem ApplyOverruns body :=
  applyField_spec.members_faults_iff

theorem applyMembers_eq_ok_iff {body : Bytes} {c : Cursor Draft} :
    applyMembers body = .ok c ↔
      ∃ doc, Passes ApplyItem body doc [] ∧
        c = ⟨[], doc.foldl storeMember {}⟩ :=
  applyField_spec.members_eq_ok_iff

theorem conclude_fails_iff {run : Except (Exit × Draft) (Cursor Draft)} :
    (∃ f, conclude run = .error f) ↔
      ∃ f draft, run = .error (.fault f, draft) := by
  rcases run with ⟨f | ⟨code, detail⟩, draft⟩ | ⟨view, draft⟩
  · simp [conclude]
  · simp [conclude]
  · cases hpid : draft.hasPid <;> simp [conclude, hpid]

theorem parseGovApply_of_overrun {payload : Bytes}
    (h : OverrunPayload payload) : ∃ f, parseGovApply payload = .error f := by
  obtain ⟨body, hbody, hoverrun⟩ := h
  rw [parseGovApply_of_body hbody, conclude_fails_iff]
  exact applyMembers_faults_iff.mpr hoverrun

/-- The parser only faults on blanks and on values that overrun. -/
theorem parseGovApply_fails_iff (payload : Bytes) :
    (∃ f, parseGovApply payload = .error f) ↔
      BlankPayload payload ∨ OverrunPayload payload := by
  constructor
  · intro hfails
    rcases payload_cases payload with hblank | ⟨body, hbody⟩ | hnack
    · exact .inl hblank
    · rw [parseGovApply_of_body hbody, conclude_fails_iff] at hfails
      exact .inr ⟨body, hbody, applyMembers_faults_iff.mp hfails⟩
    · obtain ⟨result, hresult, _⟩ := hnack
      obtain ⟨f, hfails⟩ := hfails
      rw [hresult] at hfails
      contradiction
  · intro h
    rcases h with hblank | hoverrun
    · exact ⟨_, parseGovApply_of_blank hblank⟩
    · exact parseGovApply_of_overrun hoverrun

/-- The parser answers every payload but those that make it fault. -/
theorem parseGovApply_returns_iff (payload : Bytes) :
    (∃ result, parseGovApply payload = .ok result) ↔
      ¬BlankPayload payload ∧ ¬OverrunPayload payload := by
  rw [← not_or, ← parseGovApply_fails_iff]
  cases parseGovApply payload <;> simp

theorem malformed_payloads_fault :
    (¬∀ payload, ∃ result, parseGovApply payload = .ok result) ∧
      parseGovApply (bytes " \n") = .error .front ∧
      parseGovApply (bytes "\x7b\"cpu\":\x7b\x7d") = .error .removeSuffix ∧
      parseGovApply (bytes "\x7b\"pid\":10000000000000000000\x7d") =
        .error .outOfRange := by
  refine ⟨?_, by decide +kernel, by decide +kernel, by decide +kernel⟩
  intro h
  obtain ⟨result, hresult⟩ := h (bytes " \n")
  have hfault : parseGovApply (bytes " \n") = .error .front := by
    decide +kernel
  rw [hfault] at hresult
  contradiction

/-! The payloads that are answered with `ACK`. -/

theorem conclude_ack {run : Except (Exit × Draft) (Cursor Draft)}
    {result : ParseResult}
    (hnacks : ∀ code detail draft,
      run = .error (.nack code detail, draft) → code ≠ .ack)
    (h : conclude run = .ok result) (hack : result.ack = .ack) :
    ∃ view draft, run = .ok ⟨view, draft⟩ ∧ draft.hasPid = true ∧
      result = { success := true, ack := .ack, msg := draft.msg } := by
  rcases run with ⟨f | ⟨code, detail⟩, draft⟩ | ⟨view, draft⟩
  · simp [conclude] at h
  · cases h
    exact absurd hack (hnacks code detail draft rfl)
  · cases hpid : draft.hasPid with
      | false =>
          simp only [conclude, hpid] at h
          cases h
          contradiction
      | true =>
          simp only [conclude, hpid] at h
          cases h
          exact ⟨view, draft, rfl, hpid, rfl⟩

/-- A payload answered with `ACK` spells a list of members, which make up the
message. -/
theorem exists_reads_of_ack {payload : Bytes} {result : ParseResult}
    (h : parseGovApply payload = .ok result) (hack : result.ack = .ack) :
    ∃ doc, Reads payload doc ∧
      (doc.foldl storeMember {}).hasPid = true ∧ result.success = true ∧
      result.msg = (doc.foldl storeMember {}).msg := by
  rcases payload_cases payload with hblank | ⟨body, hbody⟩ | hnack
  · rw [parseGovApply_of_blank hblank] at h
    contradiction
  · rw [parseGovApply_of_body hbody] at h
    obtain ⟨view, draft, hrun, hpid, rfl⟩ := conclude_ack
      (fun _ _ _ => applyField_spec.members_nacks) h hack
    obtain ⟨doc, hpasses, hdraft⟩ := applyMembers_eq_ok_iff.mp hrun
    cases hdraft
    exact ⟨doc, ⟨body, hbody, hpasses⟩, hpid, rfl, rfl⟩
  · obtain ⟨result', hresult, hnot⟩ := hnack
    rw [hresult] at h
    cases h
    exact absurd hack hnot

theorem parseGovApply_of_reads {payload : Bytes} {doc : List Member}
    (h : Reads payload doc) :
    parseGovApply payload = conclude (.ok ⟨[], doc.foldl storeMember {}⟩) := by
  obtain ⟨body, hbody, hpasses⟩ := h
  rw [parseGovApply_of_body hbody,
    applyMembers_eq_ok_iff.mpr ⟨doc, hpasses, rfl⟩]

end HeidiKernel.Gov
