import HeidiKernel.GovRule.Fields

namespace HeidiKernel.Gov

open HeidiKernel.Data

/-! Where a sub-object ends. -/

theorem braceSpan_append (depth : Nat) (s : Bytes) :
    (braceSpan depth s).1 ++ (braceSpan depth s).2 = s := by
  induction s generalizing depth with
  | nil => cases depth <;> rfl
  | cons c s ih =>
      cases depth with
      | zero => rfl
      | succ depth =>
          simp only [braceSpan, List.cons_append]
          rw [ih]

theorem braceStep_size {s : Bytes} (i j : Nat × Nat)
    (h : braceStep s i = .ok (some j)) :
    s.length - j.1 < s.length - i.1 := by
  obtain ⟨i, depth⟩ := i
  simp only [braceStep] at h
  split at h
  · next hmore =>
      have hi : i < s.length := by
        simp only [Bool.and_eq_true, decide_eq_true_eq] at hmore
        exact hmore.1
      simp only [View.get, List.getElem?_eq_getElem hi, ok_bind] at h
      have hj : j.1 = i + 1 := by
        split_ifs at h <;> cases h <;> rfl
      omega
  · simp at h

theorem braceStep_runs (done rest : Bytes) (depth : Nat) :
    ∃ depth', Reaches (braceStep (done ++ rest)) (done.length, depth)
        ((done ++ (braceSpan depth rest).1).length, depth') ∧
      braceStep (done ++ rest)
        ((done ++ (braceSpan depth rest).1).length, depth') = .ok none := by
  induction rest generalizing done depth with
  | nil =>
      refine ⟨depth, ?_, ?_⟩
      · cases depth <;> simp [braceSpan, Relation.ReflTransGen.refl]
      · cases depth <;> simp [braceSpan, braceStep]
  | cons c rest ih =>
      cases depth with
      | zero =>
          refine ⟨0, ?_, ?_⟩
          · simp [braceSpan, Relation.ReflTransGen.refl]
          · simp [braceStep]
      | succ depth =>
          have hstep : braceStep (done ++ c :: rest) (done.length, depth + 1) =
              .ok (some (done.length + 1,
                if c = lbrace then depth + 2
                else if c = rbrace then depth else depth + 1)) := by
            by_cases hl : c = lbrace
            · simp [braceStep, View.get, hl]
            · by_cases hr : c = rbrace
              · subst hr
                simp [braceStep, View.get, hl]
              · simp [braceStep, View.get, hl, hr]
          obtain ⟨depth', hreach, hend⟩ := ih (done ++ [c])
            (if c = lbrace then depth + 2
              else if c = rbrace then depth else depth + 1)
          simp only [List.append_assoc, List.singleton_append,
            List.length_append, List.length_singleton] at hreach hend
          refine ⟨depth', .head hstep ?_, ?_⟩
          · simpa [braceSpan, Nat.add_assoc, Nat.add_comm] using hreach
          · simpa [braceSpan, Nat.add_assoc, Nat.add_comm] using hend

theorem braceEnd_eq (inside : Bytes) :
    braceEnd (lbrace :: inside) =
      .ok (lbrace :: (braceSpan 1 inside).1).length := by
  obtain ⟨depth, hreach, hend⟩ := braceStep_runs [lbrace] inside 1
  have hloop : loop (fun _ => Fault.stuck) (braceStep (lbrace :: inside))
      ((lbrace :: inside).length + 1) (1, 1) =
        .ok ((lbrace :: (braceSpan 1 inside).1).length, depth) := by
    refine (loop_eq_ok_iff braceStep_size ?_).mpr ⟨hreach, hend⟩
    exact Nat.lt_succ_of_le (Nat.sub_le _ _)
  simp only [braceEnd, hloop, ok_bind]
  rfl

/-! The two ends of a sub-object. -/

theorem trimEnd_cons {c : UInt8} (hc : isWhitespace c = false) (s : Bytes) :
    trimEnd (c :: s) = c :: trimEnd s := by
  unfold trimEnd
  induction s using List.reverseRecOn with
  | nil => simp [List.rdropWhile, hc]
  | append_singleton s d ih =>
      rw [← List.cons_append, List.rdropWhile_concat, List.rdropWhile_concat]
      split
      · exact ih
      · rfl

theorem trimmed_cons {c : UInt8} (hc : isWhitespace c = false) (s : Bytes) :
    trimmed (c :: s) = c :: trimEnd s := by
  rw [trimmed, trimEnd_cons hc, trimStart_of_not _ hc]

theorem trimEnd_eq_nil_iff {s : Bytes} : trimEnd s = [] ↔ Blank s := by
  unfold trimEnd Blank
  rw [List.rdropWhile_eq_nil_iff]

/-- Without a closing brace a sub-object goes on to the end of the view. -/
theorem braceSpan_of_not_mem {depth : Nat} {s : Bytes}
    (h : rbrace ∉ (braceSpan (depth + 1) s).1) :
    braceSpan (depth + 1) s = (s, []) := by
  induction s generalizing depth with
  | nil => rfl
  | cons c s ih =>
      by_cases hl : c = lbrace
      · simp only [braceSpan, if_pos hl, List.mem_cons, not_or] at h ⊢
        rw [ih h.2]
      · by_cases hr : c = rbrace
        · exact absurd (by simp [braceSpan, hr]) h
        · simp only [braceSpan, if_neg hl, if_neg hr, List.mem_cons,
            not_or] at h ⊢
          rw [ih h.2]

def BraceFree (s : Bytes) : Prop := ∀ c ∈ s, c ≠ lbrace ∧ c ≠ rbrace

theorem braceSpan_braceFree {s : Bytes} (h : BraceFree s) (depth : Nat)
    (rest : Bytes) :
    braceSpan (depth + 1) (s ++ rest) =
      (s ++ (braceSpan (depth + 1) rest).1,
        (braceSpan (depth + 1) rest).2) := by
  induction s with
  | nil => rfl
  | cons c s ih =>
      obtain ⟨⟨hl, hr⟩, hs⟩ := List.forall_mem_cons.mp h
      simp only [List.cons_append, braceSpan, if_neg hl, if_neg hr, ih hs]

theorem blank_braceSpan_iff {s : Bytes} :
    Blank (braceSpan 1 s).1 ↔ Blank s := by
  constructor
  · intro h
    have hmem : rbrace ∉ (braceSpan (0 + 1) s).1 := by
      intro hmem
      have := h _ hmem
      contradiction
    rw [braceSpan_of_not_mem hmem] at h
    exact h
  · intro h c hc
    apply h
    rw [← braceSpan_append 1 s]
    exact List.mem_append_left _ hc

theorem sliceObject_of_inside (inside : Bytes) :
    sliceObject (lbrace :: inside) = do
      let obj ← View.removeSuffix 1 (trimEnd (braceSpan 1 inside).1)
      return (trimmed obj, (braceSpan 1 inside).2) := by
  have hsplit : lbrace :: inside =
      (lbrace :: (braceSpan 1 inside).1) ++ (braceSpan 1 inside).2 := by
    rw [List.cons_append, braceSpan_append]
  have hsubstr : View.substr 0 (lbrace :: (braceSpan 1 inside).1).length
      (lbrace :: inside) = .ok (lbrace :: (braceSpan 1 inside).1) := by
    rw [hsplit]
    exact View.substr_append _ _
  have hremove : View.removePrefix
      (lbrace :: (braceSpan 1 inside).1).length (lbrace :: inside) =
        .ok (braceSpan 1 inside).2 := by
    rw [hsplit]
    exact View.removePrefix_append _ _
  have htrim := trimmed_cons (show isWhitespace lbrace = false from rfl)
    (braceSpan 1 inside).1
  simp only [sliceObject, braceEnd_eq, ok_bind, hsubstr, hremove, trim_eq,
    htrim, View.removePrefix_one_cons]

theorem sliceObject_of_loneBrace {s : Bytes} (h : LoneBrace s) :
    sliceObject s = .error .removeSuffix := by
  obtain ⟨inside, hblank, rfl⟩ := h
  have hnil := trimEnd_eq_nil_iff.mpr (blank_braceSpan_iff.mpr hblank)
  rw [sliceObject_of_inside, hnil]
  rfl

theorem sliceObject_of_objectAt {s body rest : Bytes}
    (h : ObjectAt s body rest) : sliceObject s = .ok (body, rest) := by
  obtain ⟨inside, inner, last, rfl, rfl, htrim, rfl⟩ := h.slice
  have hend : trimEnd (braceSpan 1 inside).1 = inner ++ [last] := by
    rw [trimmed_cons (by rfl)] at htrim
    exact (List.cons.inj htrim).2
  rw [sliceObject_of_inside, hend, View.removeSuffix_one_concat]
  rfl

/-- A view opens no object, opens one and holds nothing of it, or has one. -/
theorem object_cases (s : Bytes) :
    (∀ inside, s ≠ lbrace :: inside) ∨ LoneBrace s ∨
      ∃ body rest, ObjectAt s body rest := by
  by_cases hopen : ∃ inside, s = lbrace :: inside
  case neg => exact .inl fun inside hs => hopen ⟨inside, hs⟩
  obtain ⟨inside, rfl⟩ := hopen
  rcases List.eq_nil_or_concat (trimEnd (braceSpan 1 inside).1) with
    hnil | ⟨inner, last, hend⟩
  · exact .inr (.inl ⟨inside,
      blank_braceSpan_iff.mp (trimEnd_eq_nil_iff.mp hnil), rfl⟩)
  · refine .inr (.inr ⟨_, _, ⟨inside, inner, last, rfl, rfl, ?_, rfl⟩⟩)
    rw [trimmed_cons (by rfl), hend, List.concat_eq_append]

theorem ObjectAt.length_le {s body rest : Bytes} (h : ObjectAt s body rest) :
    rest.length ≤ s.length := by
  obtain ⟨inside, inner, last, rfl, rfl, _, _⟩ := h.slice
  have happend := congrArg List.length (braceSpan_append 1 inside)
  simp only [List.length_append, List.length_cons] at happend ⊢
  omega

section ParseObject

variable {M σ τ : Type} {name : Bytes}
  {field : Bytes → Bytes → σ → Except Exit (Cursor σ)}
  {Item : Bytes → Bytes → M → Bytes → Prop}
  {Overruns : Bytes → Bytes → Prop} {apply : σ → M → σ} {init : σ}
  {store : σ → τ} (h : FieldSpec field Item Overruns apply)

theorem parseObject_of_not {s : Bytes} (hs : ∀ inside, s ≠ lbrace :: inside) :
    parseObject name field init store s =
      .error (.nack .nackParseError (name ++ bytes " must be an object")) := by
  cases s with
  | nil => rfl
  | cons c s =>
      have hne : c ≠ lbrace := fun hc => hs s (by rw [hc])
      simp [parseObject, hne]

theorem parseObject_of_inside (inside : Bytes) :
    parseObject name field init store (lbrace :: inside) = do
      let (obj, rest) ← liftM (sliceObject (lbrace :: inside))
      let policy ←
        (members (bytes "failed to parse " ++ name ++ bytes " sub-key")
          (bytes "missing colon in " ++ name ++ bytes " object")
          field ⟨obj, init⟩).mapError Prod.fst
      return ⟨rest, store policy.value⟩ := by
  simp [parseObject]

theorem parseObject_of_loneBrace {s : Bytes} (hlone : LoneBrace s) :
    parseObject name field init store s = .error (.fault .removeSuffix) := by
  have hslice := sliceObject_of_loneBrace hlone
  obtain ⟨inside, _, rfl⟩ := hlone
  rw [parseObject_of_inside, hslice]
  rfl

theorem parseObject_of_objectAt {s body rest : Bytes}
    (hobject : ObjectAt s body rest) :
    parseObject name field init store s = do
      let policy ←
        (members (bytes "failed to parse " ++ name ++ bytes " sub-key")
          (bytes "missing colon in " ++ name ++ bytes " object")
          field ⟨body, init⟩).mapError Prod.fst
      return ⟨rest, store policy.value⟩ := by
  obtain ⟨inside, _, _, rfl, _⟩ := hobject.slice
  rw [parseObject_of_inside, sliceObject_of_objectAt hobject, liftM_ok, ok_bind]

include h

theorem parseObject_eq_ok_iff {s : Bytes} {c : Cursor τ} :
    parseObject name field init store s = .ok c ↔
      ∃ body fields, ObjectAt s body c.view ∧ Passes Item body fields [] ∧
        c.value = store (fields.foldl apply init) := by
  obtain ⟨view, value⟩ := c
  constructor
  · intro hparse
    rcases object_cases s with hnot | hlone | ⟨body, rest, hobject⟩
    · rw [parseObject_of_not hnot] at hparse
      cases hparse
    · rw [parseObject_of_loneBrace hlone] at hparse
      cases hparse
    · rw [parseObject_of_objectAt hobject] at hparse
      obtain ⟨policy, hmembers, hvalue⟩ := bind_eq_ok.mp hparse
      obtain ⟨fields, hpasses, rfl⟩ :=
        h.members_eq_ok_iff.mp (mapError_eq_ok.mp hmembers)
      cases hvalue
      exact ⟨body, fields, hobject, hpasses, rfl⟩
  · intro hread
    obtain ⟨body, fields, hobject, hpasses, hvalue⟩ := hread
    have hmembers :
        members (bytes "failed to parse " ++ name ++ bytes " sub-key")
          (bytes "missing colon in " ++ name ++ bytes " object") field
          ⟨body, init⟩ = .ok ⟨[], fields.foldl apply init⟩ :=
      h.members_eq_ok_iff.mpr ⟨fields, hpasses, rfl⟩
    simp only at hvalue
    rw [parseObject_of_objectAt hobject, hvalue]
    simp only [mapError_eq_ok.mpr hmembers]
    rfl

theorem parseObject_faults_iff {s : Bytes} :
    (∃ f, parseObject name field init store s = .error (.fault f)) ↔
      LoneBrace s ∨
        ∃ body rest, ObjectAt s body rest ∧ Overrun Item Overruns body := by
  have hmembers (body : Bytes) :
      (∃ f value,
        members (bytes "failed to parse " ++ name ++ bytes " sub-key")
          (bytes "missing colon in " ++ name ++ bytes " object") field
          ⟨body, init⟩ = .error (.fault f, value)) ↔
        Overrun Item Overruns body := h.members_faults_iff
  constructor
  · intro hparse
    obtain ⟨f, hparse⟩ := hparse
    rcases object_cases s with hnot | hlone | ⟨body, rest, hobject⟩
    · rw [parseObject_of_not hnot] at hparse
      cases hparse
    · exact .inl hlone
    · rw [parseObject_of_objectAt hobject] at hparse
      simp only [bind_eq_error, mapError_eq_error] at hparse
      obtain ⟨⟨e, value⟩, hfault, rfl⟩ := hparse.resolve_right (by simp)
      exact .inr ⟨body, rest, hobject, (hmembers body).mp ⟨f, value, hfault⟩⟩
  · intro hread
    rcases hread with hlone | ⟨body, rest, hobject, hoverrun⟩
    · exact ⟨.removeSuffix, parseObject_of_loneBrace hlone⟩
    · obtain ⟨f, value, hfault⟩ := (hmembers body).mpr hoverrun
      refine ⟨f, ?_⟩
      rw [parseObject_of_objectAt hobject]
      simp only [hfault]
      rfl

theorem parseObject_nacks {s : Bytes} {code : AckCode} {detail : Bytes}
    (hparse : parseObject name field init store s =
      .error (.nack code detail)) : code ≠ .ack := by
  rcases object_cases s with hnot | hlone | ⟨body, rest, hobject⟩
  · rw [parseObject_of_not hnot] at hparse
    cases hparse
    decide
  · rw [parseObject_of_loneBrace hlone] at hparse
    cases hparse
  · rw [parseObject_of_objectAt hobject] at hparse
    simp only [bind_eq_error, mapError_eq_error] at hparse
    obtain ⟨⟨e, value⟩, hnack, rfl⟩ := hparse.resolve_right (by simp)
    exact h.members_nacks hnack

end ParseObject

end HeidiKernel.Gov
