import HeidiKernel.GovRule.Members

namespace HeidiKernel.Gov

open HeidiKernel.Data

/-! Reading one literal. -/

theorem Kind.Token.length_le {kind : Kind} {s text rest : Bytes}
    (h : kind.Token s text rest) : rest.length ≤ s.length := by
  cases kind with
  | string =>
      obtain ⟨blank, _, _, rfl⟩ := h
      simp only [List.length_append, List.length_cons]
      omega
  | int lo hi =>
      obtain ⟨blank, sign, digits, _, _, _, _, _, rfl⟩ := h
      simp only [List.length_append]
      omega
  | uint hi =>
      obtain ⟨blank, _, _, _, rfl⟩ := h
      simp only [List.length_append]
      omega

/-- A reader takes the literals of one kind and stores what they spell. -/
structure Reader {σ : Type} (kind : Kind)
    (read : Bytes → Except Exit (Cursor σ)) (store : Bytes → σ) : Prop where
  accepts : ∀ {s c}, read s = .ok c ↔
    ∃ text, kind.Token s text c.view ∧ kind.Accepts text ∧
      c.value = store text
  faults : ∀ {s}, (∃ f, read s = .error (.fault f)) ↔
    ∃ text rest, kind.Token s text rest ∧ kind.Overruns text
  nacks : ∀ {s code detail},
    read s = .error (.nack code detail) → code ≠ .ack

section Reader

variable {α σ : Type} {kind : Kind}
  {parse : Bytes → Except Fault (Option α × Bytes)}
  {convert : Bytes → Except Fault (Option α)} {code : AckCode}
  {detail : Bytes} {put : α → Except Exit σ} {store : Bytes → σ}

theorem readField_eq_ok_iff {s : Bytes} {c : Cursor σ} :
    readField parse code detail put s = .ok c ↔
      ∃ val, parse s = .ok (some val, c.view) ∧ put val = .ok c.value := by
  obtain ⟨view, value⟩ := c
  unfold readField
  cases parse s with
  | error f => simp
  | ok found =>
      obtain ⟨out, rest⟩ := found
      cases out with
      | none => simp
      | some val => cases hput : put val <;> simp [hput, and_comm]

theorem readField_faults_iff
    (hput : ∀ {val e}, put val = .error e → e.IsNack)
    {s : Bytes} {f : Fault} :
    readField parse code detail put s = .error (.fault f) ↔
      parse s = .error f := by
  unfold readField
  cases parse s with
  | error f => simp
  | ok found =>
      obtain ⟨out, rest⟩ := found
      cases out with
      | none => simp
      | some val =>
          cases hval : put val with
          | error e =>
              have hne : e ≠ .fault f := fun he => by
                simpa [he, Exit.IsNack] using hput hval
              simp [hval, hne]
          | ok value => simp [hval]

theorem readField_nacks (hcode : code ≠ .ack)
    (hput : ∀ {val e}, put val = .error e → e.IsNack)
    {s : Bytes} {code' : AckCode} {detail' : Bytes}
    (h : readField parse code detail put s = .error (.nack code' detail')) :
    code' ≠ .ack := by
  unfold readField at h
  cases hparse : parse s with
  | error f => simp [hparse] at h
  | ok found =>
      obtain ⟨out, rest⟩ := found
      rw [hparse, liftM_ok, ok_bind] at h
      cases out with
      | none =>
          cases h
          exact hcode
      | some val =>
          rcases bind_eq_error.mp h with hval | ⟨value, _, hvalue⟩
          · exact hput hval
          · contradiction

theorem Reader.of_scans (hscan : Scans parse kind.Token convert)
    (haccepts : ∀ text value,
      (∃ val, convert text = .ok (some val) ∧ put val = .ok value) ↔
        kind.Accepts text ∧ value = store text)
    (hfaults : ∀ text,
      (∃ f, convert text = .error f) ↔ kind.Overruns text)
    (hcode : code ≠ .ack) (hput : ∀ {val e}, put val = .error e → e.IsNack) :
    Reader kind (readField parse code detail put) store where
  accepts := by
    intro s c
    simp only [readField_eq_ok_iff, hscan.eq_some_iff, ← haccepts]
    constructor
    · intro hread
      obtain ⟨val, ⟨text, htoken, hconvert⟩, hvalue⟩ := hread
      exact ⟨text, htoken, val, hconvert, hvalue⟩
    · intro hread
      obtain ⟨text, htoken, val, hconvert, hvalue⟩ := hread
      exact ⟨val, ⟨text, htoken, hconvert⟩, hvalue⟩
  faults := by
    intro s
    simp only [readField_faults_iff hput, hscan.eq_error_iff, ← hfaults]
    constructor
    · intro hread
      obtain ⟨f, text, rest, htoken, hconvert⟩ := hread
      exact ⟨text, rest, htoken, f, hconvert⟩
    · intro hread
      obtain ⟨text, rest, htoken, f, hconvert⟩ := hread
      exact ⟨f, text, rest, htoken, hconvert⟩
  nacks := readField_nacks hcode hput

end Reader

section Kinds

variable {σ : Type} {code : AckCode} {detail : Bytes} (hcode : code ≠ .ack)

theorem nothing_fails {α : Type} {set : α → σ} {val : α} {e : Exit}
    (h : pure (set val) = Except.error e) : e.IsNack := by
  simp at h

include hcode in
theorem string_reader (set : Bytes → σ) :
    Reader .string
      (readField parseStringValue code detail fun val => pure (set val))
      set := by
  refine .of_scans parseQuoted_scans ?_ ?_ hcode nothing_fails
  · intro text value
    simp [Kind.Accepts, eq_comm]
  · intro text
    simp [Kind.Overruns]

/-- A conversion gives the number a text spells, unless it overruns. -/
structure Converts {α : Type} (kind : Kind)
    (parse : Bytes → Except Fault (Option α × Bytes))
    (convert : Bytes → Except Fault α) (number : Bytes → α) : Prop where
  scans : Scans parse kind.Token fun text => some <$> convert text
  gives : ∀ {text val}, convert text = .ok val ↔
    ¬kind.Overruns text ∧ val = number text
  fails : ∀ {text}, (∃ f, convert text = .error f) ↔ kind.Overruns text
  fits : ∀ {text}, kind.Accepts text → ¬kind.Overruns text

theorem int_converts {lo hi : Int} (hlo : -2 ^ 63 ≤ lo) (hhi : hi < 2 ^ 63) :
    Converts (.int lo hi) parseIntValue stoll intOf where
  scans := parseIntValue_scans
  gives := by
    intro text val
    simp only [Kind.Overruns]
    unfold stoll
    split
    · next h =>
        have hfits : ¬(intOf text < -2 ^ 63 ∨ 2 ^ 63 ≤ intOf text) := by omega
        simp only [Except.ok.injEq, hfits, not_false_eq_true, true_and,
          eq_comm]
    · next h =>
        have hover : intOf text < -2 ^ 63 ∨ 2 ^ 63 ≤ intOf text := by omega
        simp only [reduceCtorEq, hover, not_true_eq_false, false_and]
  fails := by
    intro text
    simp only [Kind.Overruns]
    unfold stoll
    split
    · next h =>
        simp only [reduceCtorEq, exists_false, false_iff]
        omega
    · next h =>
        simp only [Except.error.injEq, exists_eq', true_iff]
        omega
  fits := by
    intro text h
    simp only [Kind.Accepts, Kind.Overruns] at h ⊢
    omega

theorem uint_converts {hi : Nat} (hhi : hi < 2 ^ 64) :
    Converts (.uint hi) parseUintValue stoull natOf where
  scans := parseUintValue_scans
  gives := by
    intro text val
    simp only [Kind.Overruns, Nat.not_le]
    unfold stoull
    split
    · next h => simp only [Except.ok.injEq, h, true_and, eq_comm]
    · next h => simp only [reduceCtorEq, h, false_and]
  fails := by
    intro text
    simp only [Kind.Overruns]
    unfold stoull
    split
    · next h =>
        simp only [reduceCtorEq, exists_false, false_iff]
        omega
    · next h =>
        simp only [Except.error.injEq, exists_eq', true_iff]
        omega
  fits := by
    intro text h
    simp only [Kind.Accepts, Kind.Overruns] at h ⊢
    omega

namespace Converts

variable {α β : Type} {kind : Kind}
  {parse : Bytes → Except Fault (Option α × Bytes)}
  {convert : Bytes → Except Fault α} {number : Bytes → α}
  (h : Converts kind parse convert number)

include h hcode

/-- A field whose own check lets exactly the accepted numbers through. -/
theorem reader {put : α → Except Exit σ} (set : α → σ)
    (hput : ∀ text value, ¬kind.Overruns text →
      (put (number text) = .ok value ↔
        kind.Accepts text ∧ value = set (number text)))
    (hnack : ∀ {val e}, put val = .error e → e.IsNack) :
    Reader kind (readField parse code detail put)
      fun text => set (number text) := by
  refine .of_scans h.scans ?_ ?_ hcode hnack
  · intro text value
    simp only [map_eq_ok, Option.some.injEq]
    constructor
    · intro hread
      obtain ⟨val, ⟨_, hconvert, rfl⟩, hvalue⟩ := hread
      obtain ⟨hover, rfl⟩ := h.gives.mp hconvert
      exact (hput text value hover).mp hvalue
    · intro hread
      have hover := h.fits hread.1
      exact ⟨number text, ⟨_, h.gives.mpr ⟨hover, rfl⟩, rfl⟩,
        (hput text value hover).mpr hread⟩
  · intro text
    simp only [map_eq_error]
    exact h.fails

/-- A field whose scanner checks the range and narrows the number. -/
theorem narrow_reader {inRange : α → Bool} {cast : α → β} (set : β → σ)
    (hrange : ∀ text, inRange (number text) = true ↔ kind.Accepts text) :
    Reader kind
      (readField (parseNarrow parse inRange cast) code detail
        fun val => pure (set val))
      fun text => set (cast (number text)) := by
  refine .of_scans (h.scans.narrow inRange cast) ?_ ?_ hcode nothing_fails
  · intro text value
    simp only [map_eq_ok]
    constructor
    · intro hread
      obtain ⟨narrowed, ⟨_, ⟨val, hconvert, rfl⟩, hnarrow⟩, hvalue⟩ := hread
      obtain ⟨_, rfl⟩ := h.gives.mp hconvert
      have hin : inRange (number text) = true ∧
          cast (number text) = narrowed := by
        simpa [narrow] using hnarrow
      refine ⟨(hrange text).mp hin.1, ?_⟩
      rw [hin.2]
      exact (Except.ok.inj hvalue).symm
    · intro hread
      refine ⟨cast (number text),
        ⟨_, ⟨_, h.gives.mpr ⟨h.fits hread.1, rfl⟩, rfl⟩, ?_⟩, ?_⟩
      · simp [narrow, (hrange text).mpr hread.1]
      · rw [hread.2]
        rfl
  · intro text
    simp only [map_eq_error]
    exact h.fails

end Converts

end Kinds

/-! The fields of the sub-objects. -/

theorem FieldSpec.of_readers {σ : Type} {table : Table}
    {field : Bytes → Bytes → σ → Except Exit (Cursor σ)}
    {store : σ → Literal → σ}
    (hknown : ∀ {key kind} value, table key = some kind →
      Reader kind (field key · value) fun text => store value ⟨key, text⟩)
    (hunknown : ∀ {key} s value, table key = none →
      ∃ detail, field key s value = .error (.nack .nackUnknownField detail)) :
    FieldSpec field (FieldItem table) (FieldOverruns table) store where
  accepts := by
    intro key s value c
    cases htable : table key with
    | none =>
        obtain ⟨detail, hfield⟩ := hunknown s value htable
        rw [hfield]
        constructor
        · intro h
          contradiction
        · intro h
          obtain ⟨m, ⟨hkind, _, _⟩, _⟩ := h
          rw [htable] at hkind
          contradiction
    | some kind =>
        rw [(hknown value htable).accepts]
        constructor
        · intro h
          obtain ⟨text, htoken, haccepts, hvalue⟩ := h
          exact ⟨⟨key, text⟩, .intro htable htoken haccepts, hvalue⟩
        · intro h
          obtain ⟨m, ⟨hkind, htoken, haccepts⟩, hvalue⟩ := h
          obtain rfl := Option.some.inj (htable.symm.trans hkind)
          exact ⟨_, htoken, haccepts, hvalue⟩
  faults := by
    intro key s value
    cases htable : table key with
    | none =>
        obtain ⟨detail, hfield⟩ := hunknown s value htable
        constructor
        · intro h
          obtain ⟨f, hfault⟩ := h
          rw [hfield] at hfault
          simp at hfault
        · intro h
          obtain ⟨hkind, _, _⟩ := h
          rw [htable] at hkind
          contradiction
    | some kind =>
        rw [(hknown value htable).faults]
        constructor
        · intro h
          obtain ⟨text, rest, htoken, hoverruns⟩ := h
          exact .intro htable htoken hoverruns
        · intro h
          obtain ⟨hkind, htoken, hoverruns⟩ := h
          obtain rfl := Option.some.inj (htable.symm.trans hkind)
          exact ⟨_, _, htoken, hoverruns⟩
  nacks := by
    intro key s value code detail h
    cases htable : table key with
    | none =>
        obtain ⟨detail', hfield⟩ := hunknown s value htable
        rw [hfield] at h
        cases h
        decide
    | some kind => exact (hknown value htable).nacks h
  shrinks := by
    intro key s m rest h
    obtain ⟨_, htoken, _⟩ := h
    exact htoken.length_le

def storeCpu (policy : CpuPolicy) (m : Literal) : CpuPolicy :=
  if m.key = bytes "affinity" then
    { policy with affinity := some m.text }
  else if m.key = bytes "nice" then
    { policy with nice := some (Int8.ofInt (intOf m.text)) }
  else if m.key = bytes "max_pct" then
    { policy with maxPct := some (UInt8.ofNat (natOf m.text)) }
  else
    policy

def storeMem (policy : MemPolicy) (m : Literal) : MemPolicy :=
  if m.key = bytes "max_bytes" then
    { policy with maxBytes := some (UInt64.ofNat (natOf m.text)) }
  else
    policy

def storePids (policy : PidsPolicy) (m : Literal) : PidsPolicy :=
  if m.key = bytes "max" then
    { policy with max := some (UInt32.ofNat (natOf m.text)) }
  else
    policy

def storeRlim (policy : RlimPolicy) (m : Literal) : RlimPolicy :=
  if m.key = bytes "nofile_soft" then
    { policy with nofileSoft := some (UInt64.ofNat (natOf m.text)) }
  else if m.key = bytes "nofile_hard" then
    { policy with nofileHard := some (UInt64.ofNat (natOf m.text)) }
  else if m.key = bytes "core_soft" then
    { policy with coreSoft := some (UInt64.ofNat (natOf m.text)) }
  else if m.key = bytes "core_hard" then
    { policy with coreHard := some (UInt64.ofNat (natOf m.text)) }
  else
    policy

theorem uint64_reader {σ : Type} {code : AckCode} {detail : Bytes}
    (hcode : code ≠ .ack) (set : Nat → σ) :
    Reader (.uint (2 ^ 64 - 1))
      (readField parseUintValue code detail fun val => pure (set val))
      fun text => set (natOf text) := by
  have hconverts :=
    uint_converts (show 2 ^ 64 - 1 < 2 ^ 64 by decide)
  refine hconverts.reader hcode set ?_ nothing_fails
  intro text value hover
  have haccepts : Kind.Accepts (.uint (2 ^ 64 - 1)) text := by
    simp only [Kind.Overruns, Kind.Accepts] at hover ⊢
    omega
  rw [pure_eq_ok, Except.ok.injEq, and_iff_right haccepts]
  exact eq_comm

theorem cpuField_spec :
    FieldSpec cpuField (FieldItem cpuTable) (FieldOverruns cpuTable)
      storeCpu := by
  have hnice := int_converts (show (-2 ^ 63 : Int) ≤ -128 by decide)
    (show (127 : Int) < 2 ^ 63 by decide)
  have hmaxPct := uint_converts (show 255 < 2 ^ 64 by decide)
  refine .of_readers ?_ ?_
  · intro key kind policy htable
    unfold cpuTable at htable
    split_ifs at htable with hkey hkey' hkey'' <;> cases htable
    · simp only [cpuField, storeCpu, if_pos hkey]
      refine string_reader ?_ fun val => { policy with affinity := some val }
      decide
    · simp only [cpuField, storeCpu, if_neg hkey, if_pos hkey']
      refine hnice.narrow_reader ?_
        (fun val => { policy with nice := some val }) ?_
      · decide
      · intro text
        simp [Kind.Accepts]
    · simp only [cpuField, storeCpu, if_neg hkey, if_neg hkey',
        if_pos hkey'']
      refine hmaxPct.narrow_reader ?_
        (fun val => { policy with maxPct := some val }) ?_
      · decide
      · intro text
        simp [Kind.Accepts]
  · intro key s policy htable
    unfold cpuTable at htable
    split_ifs at htable with hkey hkey' hkey''
    simp only [cpuField, if_neg hkey, if_neg hkey', if_neg hkey'']
    exact ⟨_, rfl⟩

theorem memField_spec :
    FieldSpec memField (FieldItem memTable) (FieldOverruns memTable)
      storeMem := by
  refine .of_readers ?_ ?_
  · intro key kind policy htable
    unfold memTable at htable
    split_ifs at htable with hkey
    cases htable
    simp only [memField, storeMem, if_pos hkey]
    refine uint64_reader ?_ fun val =>
      { policy with maxBytes := some (UInt64.ofNat val) }
    decide
  · intro key s policy htable
    unfold memTable at htable
    split_ifs at htable with hkey
    simp only [memField, if_neg hkey]
    exact ⟨_, rfl⟩

theorem pidsField_spec :
    FieldSpec pidsField (FieldItem pidsTable) (FieldOverruns pidsTable)
      storePids := by
  have hmax := uint_converts (show 2 ^ 32 - 1 < 2 ^ 64 by decide)
  refine .of_readers ?_ ?_
  · intro key kind policy htable
    unfold pidsTable at htable
    split_ifs at htable with hkey
    cases htable
    simp only [pidsField, storePids, if_pos hkey]
    refine hmax.reader ?_
      (fun val => { policy with max := some (UInt32.ofNat val) }) ?_ ?_
    · decide
    · intro text value _
      simp only [Kind.Accepts]
      split_ifs with hover
      · have hgt : ¬natOf text ≤ 2 ^ 32 - 1 := by omega
        exact ⟨False.elim, fun h => hgt h.1⟩
      · have hle : natOf text ≤ 2 ^ 32 - 1 := by omega
        rw [pure_eq_ok, Except.ok.injEq, and_iff_right hle]
        exact eq_comm
    · intro val e hput
      split_ifs at hput <;> cases hput
      intro hack
      contradiction
  · intro key s policy htable
    unfold pidsTable at htable
    split_ifs at htable with hkey
    simp only [pidsField, if_neg hkey]
    exact ⟨_, rfl⟩

theorem rlimField_spec :
    FieldSpec rlimField (FieldItem rlimTable) (FieldOverruns rlimTable)
      storeRlim := by
  refine .of_readers ?_ ?_
  · intro key kind policy htable
    unfold rlimTable at htable
    split_ifs at htable with hsoft hhard hcore hcore' <;> cases htable
    · simp only [rlimField, storeRlim, if_pos hsoft]
      refine uint64_reader ?_ fun val =>
        { policy with nofileSoft := some (UInt64.ofNat val) }
      decide
    · simp only [rlimField, storeRlim, if_neg hsoft, if_pos hhard]
      refine uint64_reader ?_ fun val =>
        { policy with nofileHard := some (UInt64.ofNat val) }
      decide
    · simp only [rlimField, storeRlim, if_neg hsoft, if_neg hhard,
        if_pos hcore]
      refine uint64_reader ?_ fun val =>
        { policy with coreSoft := some (UInt64.ofNat val) }
      decide
    · simp only [rlimField, storeRlim, if_neg hsoft, if_neg hhard,
        if_neg hcore, if_pos hcore']
      refine uint64_reader ?_ fun val =>
        { policy with coreHard := some (UInt64.ofNat val) }
      decide
  · intro key s policy htable
    unfold rlimTable at htable
    split_ifs at htable with hsoft hhard hcore hcore'
    simp only [rlimField, if_neg hsoft, if_neg hhard, if_neg hcore,
      if_neg hcore']
    exact ⟨_, rfl⟩

end HeidiKernel.Gov
