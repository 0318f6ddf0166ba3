import HeidiKernel.GovRule.Verdict

namespace HeidiKernel.Gov

/-! The last member that sets a field. -/

section Last

variable {M σ β : Type} {get : σ → Option β} {store : σ → M → σ}
  {sets : M → Option β} {P : M → Prop}

/-- What a fold of stores leaves in a field is what the last store to it put
there. -/
theorem foldl_last
    (hstore : ∀ value m, P m →
      get (store value m) = (sets m).or (get value))
    {ms : List M} (hms : ∀ m ∈ ms, P m) (value : σ) :
    get (ms.foldl store value) =
      (ms.filterMap sets).getLast?.or (get value) := by
  induction ms generalizing value with
  | nil => rfl
  | cons m ms ih =>
      obtain ⟨hm, hms⟩ := List.forall_mem_cons.mp hms
      rw [List.foldl_cons, ih hms, hstore value m hm]
      cases hset : sets m with
      | none => rw [List.filterMap_cons_none hset, Option.none_or]
      | some b =>
          rw [List.filterMap_cons_some hset, List.getLast?_cons]
          cases (ms.filterMap sets).getLast? <;> rfl

end Last

def Literal.under (key : Bytes) (m : Literal) : Option Bytes :=
  if m.key = key then some m.text else none

def Member.textUnder (key : Bytes) : Member → Option Bytes
  | literal m => m.under key
  | object _ _ => none

def Member.fieldsUnder (key : Bytes) : Member → Option (List Literal)
  | literal _ => none
  | object key' fields => if key' = key then some fields else none

/-- The text of the last literal under `key`. -/
def lastText (key : Bytes) (doc : List Member) : Option Bytes :=
  (doc.filterMap (Member.textUnder key)).getLast?

/-- The text of the last `field` in the last `key` object. -/
def lastField (key field : Bytes) (doc : List Member) : Option Bytes :=
  (doc.filterMap (Member.fieldsUnder key)).getLast?.bind fun fields =>
    (fields.filterMap (Literal.under field)).getLast?

/-! What the members of a payload have been checked for. -/

def Literal.Accepted (table : Table) (m : Literal) : Prop :=
  ∃ kind, table m.key = some kind ∧ kind.Accepts m.text

inductive Member.Accepted : Member → Prop
  | literal {m : Literal} {kind : Kind} :
      applyTable m.key = some (.literal kind) → kind.Accepts m.text →
      Accepted (.literal m)
  | object {key : Bytes} {table : Table} {fields : List Literal} :
      applyTable key = some (.object table) →
      (∀ m ∈ fields, m.Accepted table) → Accepted (.object key fields)

theorem Passes.forall_mem {M : Type}
    {Item : Bytes → Bytes → M → Bytes → Prop} {s rest : Bytes} {ms : List M}
    (h : Passes Item s ms rest) (P : M → Prop)
    (hitem : ∀ {key s m rest}, Item key s m rest → P m) :
    ∀ m ∈ ms, P m := by
  induction h with
  | here => exact fun m hm => absurd hm List.not_mem_nil
  | next _ _ hm _ ih => exact List.forall_mem_cons.mpr ⟨hitem hm, ih⟩

theorem FieldItem.accepted {table : Table} {key s rest : Bytes}
    {m : Literal} (h : FieldItem table key s m rest) : m.Accepted table := by
  obtain ⟨htable, _, haccepts⟩ := h
  exact ⟨_, htable, haccepts⟩

theorem ApplyItem.accepted {key s rest : Bytes} {m : Member}
    (h : ApplyItem key s m rest) : m.Accepted := by
  cases h with
  | literal htable _ haccepts => exact .literal htable haccepts
  | object htable _ hpasses =>
      exact .object htable
        (hpasses.forall_mem (Literal.Accepted _) FieldItem.accepted)

/-! The entries of the tables. -/

theorem applyTable_pid :
    applyTable (bytes "pid") = some (.literal (.int 1 (2 ^ 63 - 1))) := by
  simp only [applyTable, if_pos]

theorem applyTable_cpu :
    applyTable (bytes "cpu") = some (.object cpuTable) := by
  simp [applyTable]

theorem applyTable_mem :
    applyTable (bytes "mem") = some (.object memTable) := by
  simp [applyTable]

theorem applyTable_pids :
    applyTable (bytes "pids") = some (.object pidsTable) := by
  simp [applyTable]

theorem applyTable_rlim :
    applyTable (bytes "rlim") = some (.object rlimTable) := by
  simp [applyTable]

theorem applyTable_oom :
    applyTable (bytes "oom_score_adj") = some (.literal (.int (-1000) 1000)) := by
  simp [applyTable]

theorem cpuTable_affinity : cpuTable (bytes "affinity") = some .string := by
  simp [cpuTable]

theorem cpuTable_nice :
    cpuTable (bytes "nice") = some (.int (-128) 127) := by
  simp [cpuTable]

theorem cpuTable_maxPct : cpuTable (bytes "max_pct") = some (.uint 255) := by
  simp [cpuTable]

theorem memTable_maxBytes :
    memTable (bytes "max_bytes") = some (.uint (2 ^ 64 - 1)) := if_pos rfl

theorem pidsTable_max :
    pidsTable (bytes "max") = some (.uint (2 ^ 32 - 1)) := if_pos rfl

theorem rlimTable_nofileSoft :
    rlimTable (bytes "nofile_soft") = some (.uint (2 ^ 64 - 1)) := by
  simp [rlimTable]

theorem rlimTable_nofileHard :
    rlimTable (bytes "nofile_hard") = some (.uint (2 ^ 64 - 1)) := by
  simp [rlimTable]

theorem rlimTable_coreSoft :
    rlimTable (bytes "core_soft") = some (.uint (2 ^ 64 - 1)) := by
  simp [rlimTable]

theorem rlimTable_coreHard :
    rlimTable (bytes "core_hard") = some (.uint (2 ^ 64 - 1)) := by
  simp [rlimTable]

/-! The fields of the sub-objects. -/

section Fields

variable {σ β : Type} {table : Table} {store : σ → Literal → σ} {init : σ}
  (get : σ → Option β) {field : Bytes} {kind : Kind} {number : Bytes → β}

theorem foldl_field (hkind : table field = some kind)
    (hinit : get init = none)
    (hother : ∀ value m, m.key ≠ field → get (store value m) = get value)
    (hfield : ∀ value text, kind.Accepts text →
      get (store value ⟨field, text⟩) = some (number text))
    {fields : List Literal} (hfields : ∀ m ∈ fields, m.Accepted table) :
    get (fields.foldl store init) =
      ((fields.filterMap (Literal.under field)).getLast?).map number := by
  have hstore : ∀ value m, m.Accepted table →
      get (store value m) =
        ((m.under field).map number).or (get value) := by
    intro value m haccepted
    obtain ⟨key, text⟩ := m
    by_cases hkey : key = field
    · subst hkey
      obtain ⟨kind', hkind', haccepts⟩ := haccepted
      obtain rfl := Option.some.inj (hkind.symm.trans hkind')
      simp [Literal.under, hfield value text haccepts]
    · simp [Literal.under, hkey, hother value ⟨key, text⟩ hkey]
  rw [foldl_last hstore hfields, hinit, Option.or_none,
    ← List.map_filterMap, List.getLast?_map]

end Fields

abbrev lastNumber {β : Type} (number : Bytes → β) (field : Bytes)
    (fields : List Literal) : Option β :=
  (fields.filterMap (Literal.under field)).getLast?.map number

section Policies

variable {fields : List Literal}

theorem storeCpu_affinity (hfields : ∀ m ∈ fields, m.Accepted cpuTable) :
    (fields.foldl storeCpu {}).affinity =
      lastNumber id (bytes "affinity") fields := by
  refine foldl_field CpuPolicy.affinity cpuTable_affinity rfl ?_ ?_ hfields
  · intro policy m hkey
    simp only [storeCpu, if_neg hkey]
    split_ifs <;> rfl
  · intro policy text _
    simp [storeCpu]

theorem storeCpu_nice (hfields : ∀ m ∈ fields, m.Accepted cpuTable) :
    (fields.foldl storeCpu {}).nice.map Int8.toInt =
      lastNumber intOf (bytes "nice") fields := by
  refine foldl_field
    (fun policy : CpuPolicy => policy.nice.map Int8.toInt) cpuTable_nice rfl
    ?_ ?_ hfields
  · intro policy m hkey
    simp only [storeCpu, if_neg hkey]
    split_ifs <;> rfl
  · intro policy text haccepts
    obtain ⟨hlo, hhi⟩ := haccepts
    have hint := Int8.toInt_ofInt_of_le (show -2 ^ 7 ≤ intOf text by omega)
      (by omega)
    simp [storeCpu, hint]

theorem storeCpu_maxPct (hfields : ∀ m ∈ fields, m.Accepted cpuTable) :
    (fields.foldl storeCpu {}).maxPct.map UInt8.toNat =
      lastNumber natOf (bytes "max_pct") fields := by
  refine foldl_field
    (fun policy : CpuPolicy => policy.maxPct.map UInt8.toNat) cpuTable_maxPct
    rfl ?_ ?_ hfields
  · intro policy m hkey
    simp only [storeCpu, if_neg hkey]
    split_ifs <;> rfl
  · intro policy text haccepts
    have hlt : natOf text < UInt8.size := Nat.lt_succ_of_le haccepts
    simp [storeCpu, Nat.mod_eq_of_lt hlt]

theorem storePids_max (hfields : ∀ m ∈ fields, m.Accepted pidsTable) :
    (fields.foldl storePids {}).max.map UInt32.toNat =
      lastNumber natOf (bytes "max") fields := by
  refine foldl_field
    (fun policy : PidsPolicy => policy.max.map UInt32.toNat) pidsTable_max rfl
    ?_ ?_ hfields
  · intro policy m hkey
    simp only [storePids, if_neg hkey]
  · intro policy text haccepts
    have hlt : natOf text < UInt32.size := Nat.lt_succ_of_le haccepts
    simp only [storePids, if_pos, Option.map_some]
    rw [UInt32.toNat_ofNat_of_lt' hlt]

theorem uint64_of_accepts {text : Bytes}
    (h : Kind.Accepts (.uint (2 ^ 64 - 1)) text) :
    (UInt64.ofNat (natOf text)).toNat = natOf text := by
  have hlt : natOf text < UInt64.size := Nat.lt_succ_of_le h
  exact UInt64.toNat_ofNat_of_lt' hlt

theorem foldl_uint64 {σ : Type} {table : Table} {store : σ → Literal → σ}
    {init : σ} (get : σ → Option UInt64) {field : Bytes}
    (hkind : table field = some (.uint (2 ^ 64 - 1)))
    (hinit : get init = none)
    (hother : ∀ value m, m.key ≠ field → get (store value m) = get value)
    (hfield : ∀ value text,
      get (store value ⟨field, text⟩) = some (UInt64.ofNat (natOf text)))
    (hfields : ∀ m ∈ fields, m.Accepted table) :
    (get (fields.foldl store init)).map UInt64.toNat =
      lastNumber natOf field fields := by
  refine foldl_field (fun value => (get value).map UInt64.toNat) hkind
    (by rw [hinit, Option.map_none]) ?_ ?_ hfields
  · intro value m hkey
    rw [hother value m hkey]
  · intro value text haccepts
    rw [hfield, Option.map_some, uint64_of_accepts haccepts]

theorem storeMem_maxBytes (hfields : ∀ m ∈ fields, m.Accepted memTable) :
    (fields.foldl storeMem {}).maxBytes.map UInt64.toNat =
      lastNumber natOf (bytes "max_bytes") fields := by
  refine foldl_uint64 MemPolicy.maxBytes memTable_maxBytes rfl ?_ ?_ hfields
  · intro policy m hkey
    simp only [storeMem, if_neg hkey]
  · intro policy text
    simp only [storeMem, if_pos]

section Rlim

variable (hfields : ∀ m ∈ fields, m.Accepted rlimTable)

include hfields

theorem storeRlim_nofileSoft :
    (fields.foldl storeRlim {}).nofileSoft.map UInt64.toNat =
      lastNumber natOf (bytes "nofile_soft") fields := by
  refine foldl_uint64 RlimPolicy.nofileSoft rlimTable_nofileSoft rfl ?_ ?_
    hfields
  · intro policy m hkey
    simp only [storeRlim, if_neg hkey]
    split_ifs <;> rfl
  · intro policy text
    simp [storeRlim]

theorem storeRlim_nofileHard :
    (fields.foldl storeRlim {}).nofileHard.map UInt64.toNat =
      lastNumber natOf (bytes "nofile_hard") fields := by
  refine foldl_uint64 RlimPolicy.nofileHard rlimTable_nofileHard rfl ?_ ?_
    hfields
  · intro policy m hkey
    simp only [storeRlim, if_neg hkey]
    split_ifs <;> rfl
  · intro policy text
    simp [storeRlim]

theorem storeRlim_coreSoft :
    (fields.foldl storeRlim {}).coreSoft.map UInt64.toNat =
      lastNumber natOf (bytes "core_soft") fields := by
  refine foldl_uint64 RlimPolicy.coreSoft rlimTable_coreSoft rfl ?_ ?_
    hfields
  · intro policy m hkey
    simp only [storeRlim, if_neg hkey]
    split_ifs <;> rfl
  · intro policy text
    simp [storeRlim]

theorem storeRlim_coreHard :
    (fields.foldl storeRlim {}).coreHard.map UInt64.toNat =
      lastNumber natOf (bytes "core_hard") fields := by
  refine foldl_uint64 RlimPolicy.coreHard rlimTable_coreHard rfl ?_ ?_
    hfields
  · intro policy m hkey
    simp only [storeRlim, if_neg hkey]
    split_ifs <;> rfl
  · intro policy text
    simp [storeRlim]

end Rlim

end Policies

/-! The message as a whole. -/

theorem foldl_member {β : Type} (get : Draft → Option β)
    {sets : Member → Option β} (hinit : get {} = none)
    (hstore : ∀ draft m, m.Accepted →
      get (storeMember draft m) = (sets m).or (get draft))
    {doc : List Member} (hdoc : ∀ m ∈ doc, m.Accepted) :
    get (doc.foldl storeMember {}) = (doc.filterMap sets).getLast? := by
  rw [foldl_last hstore hdoc, hinit, Option.or_none]

theorem written_field {σ β : Type} {table : Table} {key field : Bytes}
    {store : σ → Literal → σ} {init : σ} {get : σ → Option β}
    {number : Bytes → β} {policy : Option σ} {doc : List Member}
    (htable : applyTable key = some (.object table))
    (hdoc : ∀ m ∈ doc, m.Accepted)
    (hpolicy : policy = (doc.filterMap fun m =>
      (m.fieldsUnder key).map (·.foldl store init)).getLast?)
    (hfield : ∀ fields : List Literal, (∀ m ∈ fields, m.Accepted table) →
      get (fields.foldl store init) = lastNumber number field fields) :
    policy.bind get = (lastField key field doc).map number := by
  rw [hpolicy, ← List.map_filterMap, List.getLast?_map, lastField]
  cases hlast : (doc.filterMap (Member.fieldsUnder key)).getLast? with
  | none => rfl
  | some fields =>
      obtain ⟨m, hm, hunder⟩ :=
        List.mem_filterMap.mp (List.mem_of_getLast? hlast)
      have haccepted : ∀ m ∈ fields, m.Accepted table := by
        cases hdoc m hm with
        | literal _ _ => contradiction
        | @object key' table' fields' htable' hfields =>
            by_cases hkey : key' = key
            · subst hkey
              obtain rfl : fields' = fields := by
                simpa [Member.fieldsUnder] using hunder
              obtain rfl : table = table' := by
                simpa using htable.symm.trans htable'
              exact hfields
            · simp [Member.fieldsUnder, hkey] at hunder
      exact hfield fields haccepted

/-- Every number of the message is the one its last literal spells. -/
structure WrittenValues (doc : List Member) (msg : GovApplyMsg) : Prop where
  pid : some msg.pid.toInt = (lastText (bytes "pid") doc).map intOf ∧
    1 ≤ msg.pid.toInt ∧ msg.pid.toInt ≤ 2 ^ 31 - 1
  nice : msg.cpu.bind (·.nice.map Int8.toInt) =
    (lastField (bytes "cpu") (bytes "nice") doc).map intOf
  maxPct : msg.cpu.bind (·.maxPct.map UInt8.toNat) =
    (lastField (bytes "cpu") (bytes "max_pct") doc).map natOf
  maxBytes : msg.mem.bind (·.maxBytes.map UInt64.toNat) =
    (lastField (bytes "mem") (bytes "max_bytes") doc).map natOf
  max : msg.pids.bind (·.max.map UInt32.toNat) =
    (lastField (bytes "pids") (bytes "max") doc).map natOf
  nofileSoft : msg.rlim.bind (·.nofileSoft.map UInt64.toNat) =
    (lastField (bytes "rlim") (bytes "nofile_soft") doc).map natOf
  nofileHard : msg.rlim.bind (·.nofileHard.map UInt64.toNat) =
    (lastField (bytes "rlim") (bytes "nofile_hard") doc).map natOf
  coreSoft : msg.rlim.bind (·.coreSoft.map UInt64.toNat) =
    (lastField (bytes "rlim") (bytes "core_soft") doc).map natOf
  coreHard : msg.rlim.bind (·.coreHard.map UInt64.toNat) =
    (lastField (bytes "rlim") (bytes "core_hard") doc).map natOf
  oomScoreAdj : msg.oomScoreAdj.map Int32.toInt =
    (lastText (bytes "oom_score_adj") doc).map intOf

section Draft

variable {doc : List Member} (hdoc : ∀ m ∈ doc, m.Accepted)

include hdoc

theorem draft_object {σ : Type} {key : Bytes} {store : σ → Literal → σ}
    {init : σ} (get : GovApplyMsg → Option σ) (hinit : get {} = none)
    (hliteral : ∀ draft m, get (storeLiteral draft m).msg = get draft.msg)
    (hother : ∀ draft other fields, other ≠ key →
      get (storeObject draft other fields).msg = get draft.msg)
    (hsame : ∀ draft fields, get (storeObject draft key fields).msg =
      some (fields.foldl store init)) :
    get (doc.foldl storeMember {}).msg = (doc.filterMap fun m =>
      (m.fieldsUnder key).map (·.foldl store init)).getLast? := by
  refine foldl_member (fun draft => get draft.msg) hinit ?_ hdoc
  intro draft m _
  cases m with
  | literal m => exact hliteral draft m
  | object other fields =>
      by_cases hkey : other = key
      · subst hkey
        rw [storeMember, hsame, Member.fieldsUnder, if_pos rfl,
          Option.map_some, Option.some_or]
      · rw [storeMember, hother draft other fields hkey, Member.fieldsUnder,
          if_neg hkey, Option.map_none, Option.none_or]

theorem draft_cpu :
    (doc.foldl storeMember {}).msg.cpu = (doc.filterMap fun m =>
      (m.fieldsUnder (bytes "cpu")).map (·.foldl storeCpu {})).getLast? := by
  refine draft_object hdoc GovApplyMsg.cpu rfl ?_ ?_ ?_
  · intro draft m
    simp only [storeLiteral]
    split_ifs <;> rfl
  · intro draft other fields hkey
    simp only [storeObject, if_neg hkey]
    split_ifs <;> rfl
  · intro draft fields
    simp [storeObject]

theorem draft_mem :
    (doc.foldl storeMember {}).msg.mem = (doc.filterMap fun m =>
      (m.fieldsUnder (bytes "mem")).map (·.foldl storeMem {})).getLast? := by
  refine draft_object hdoc GovApplyMsg.mem rfl ?_ ?_ ?_
  · intro draft m
    simp only [storeLiteral]
    split_ifs <;> rfl
  · intro draft other fields hkey
    simp only [storeObject, if_neg hkey]
    split_ifs <;> rfl
  · intro draft fields
    simp [storeObject]

theorem draft_pids :
    (doc.foldl storeMember {}).msg.pids = (doc.filterMap fun m =>
      (m.fieldsUnder (bytes "pids")).map (·.foldl storePids {})).getLast? := by
  refine draft_object hdoc GovApplyMsg.pids rfl ?_ ?_ ?_
  · intro draft m
    simp only [storeLiteral]
    split_ifs <;> rfl
  · intro draft other fields hkey
    simp only [storeObject, if_neg hkey]
    split_ifs <;> rfl
  · intro draft fields
    simp [storeObject]

theorem draft_rlim :
    (doc.foldl storeMember {}).msg.rlim = (doc.filterMap fun m =>
      (m.fieldsUnder (bytes "rlim")).map (·.foldl storeRlim {})).getLast? := by
  refine draft_object hdoc GovApplyMsg.rlim rfl ?_ ?_ ?_
  · intro draft m
    simp only [storeLiteral]
    split_ifs <;> rfl
  · intro draft other fields hkey
    simp only [storeObject, if_neg hkey]
    split_ifs <;> rfl
  · intro draft fields
    simp [storeObject]

theorem draft_oomScoreAdj :
    (doc.foldl storeMember {}).msg.oomScoreAdj.map Int32.toInt =
      (lastText (bytes "oom_score_adj") doc).map intOf := by
  have hne : bytes "oom_score_adj" ≠ bytes "pid" := by simp
  have hkind := applyTable_oom
  rw [lastText, ← List.getLast?_map, List.map_filterMap]
  refine foldl_member (·.msg.oomScoreAdj.map Int32.toInt) rfl ?_ hdoc
  intro draft m haccepted
  cases haccepted with
  | @literal m kind htable haccepts =>
      obtain ⟨key, text⟩ := m
      by_cases hkey : key = bytes "oom_score_adj"
      · subst hkey
        obtain rfl : kind = .int (-1000) 1000 := by
          simpa using htable.symm.trans hkind
        obtain ⟨hlo, hhi⟩ := haccepts
        change -1000 ≤ intOf text at hlo
        change intOf text ≤ 1000 at hhi
        have hint := Int32.toInt_ofInt_of_le
          (show -2 ^ 31 ≤ intOf text by omega) (by omega)
        simp only [storeMember, storeLiteral, Member.textUnder,
          Literal.under, if_neg hne, if_pos, Option.map_some, hint]
        rfl
      · simp only [storeMember, storeLiteral, Member.textUnder,
          Literal.under, if_neg hkey]
        split_ifs <;> rfl
  | object _ _ =>
      simp only [storeMember, storeObject, Member.textUnder]
      split_ifs <;> rfl

/-- The pid, if one was set: the last literal, cut to 32 bits. -/
theorem draft_pid :
    (if (doc.foldl storeMember {}).hasPid then
        some (doc.foldl storeMember {}).msg.pid
      else
        none) =
      (lastText (bytes "pid") doc).map (Int32.ofInt ∘ intOf) := by
  rw [lastText, ← List.getLast?_map, List.map_filterMap]
  refine foldl_member (fun draft =>
    if draft.hasPid then some draft.msg.pid else none) rfl ?_ hdoc
  intro draft m _
  cases m with
  | literal m =>
      by_cases hkey : m.key = bytes "pid"
      · simp only [storeMember, storeLiteral, Member.textUnder,
          Literal.under, if_pos hkey]
        rfl
      · simp only [storeMember, storeLiteral, Member.textUnder,
          Literal.under, if_neg hkey]
        split_ifs <;> rfl
  | object key fields =>
      simp only [storeMember, storeObject, Member.textUnder]
      split_ifs <;> rfl

end Draft

theorem lastText_accepts {doc : List Member} {key text : Bytes}
    {kind : Kind} (htable : applyTable key = some (.literal kind))
    (hdoc : ∀ m ∈ doc, m.Accepted) (hlast : lastText key doc = some text) :
    kind.Accepts text := by
  obtain ⟨m, hm, hunder⟩ :=
    List.mem_filterMap.mp (List.mem_of_getLast? hlast)
  cases hdoc m hm with
  | object _ _ => contradiction
  | @literal m kind' htable' haccepts =>
      by_cases hkey : m.key = key
      · subst hkey
        obtain rfl : m.text = text := by
          simpa [Member.textUnder, Literal.under] using hunder
        obtain rfl : kind = kind' := by
          simpa using htable.symm.trans htable'
        exact haccepts
      · simp [Member.textUnder, Literal.under, hkey] at hunder

theorem Reads.accepted {payload : Bytes} {doc : List Member}
    (h : Reads payload doc) : ∀ m ∈ doc, m.Accepted := by
  obtain ⟨body, _, hpasses⟩ := h
  exact hpasses.forall_mem Member.Accepted ApplyItem.accepted

section Written

variable {doc : List Member} (hdoc : ∀ m ∈ doc, m.Accepted)
  {draft : Draft} (hdraft : draft = doc.foldl storeMember {})

include hdoc hdraft

theorem writtenValues_of_pid
    (hpid : some draft.msg.pid.toInt =
        (lastText (bytes "pid") doc).map intOf ∧
      1 ≤ draft.msg.pid.toInt ∧ draft.msg.pid.toInt ≤ 2 ^ 31 - 1) :
    WrittenValues doc draft.msg := by
  subst hdraft
  exact {
    pid := hpid
    nice := written_field applyTable_cpu hdoc (draft_cpu hdoc)
      fun _ => storeCpu_nice
    maxPct := written_field applyTable_cpu hdoc (draft_cpu hdoc)
      fun _ => storeCpu_maxPct
    maxBytes := written_field applyTable_mem hdoc (draft_mem hdoc)
      fun _ => storeMem_maxBytes
    max := written_field applyTable_pids hdoc (draft_pids hdoc)
      fun _ => storePids_max
    nofileSoft := written_field applyTable_rlim hdoc (draft_rlim hdoc)
      fun _ => storeRlim_nofileSoft
    nofileHard := written_field applyTable_rlim hdoc (draft_rlim hdoc)
      fun _ => storeRlim_nofileHard
    coreSoft := written_field applyTable_rlim hdoc (draft_rlim hdoc)
      fun _ => storeRlim_coreSoft
    coreHard := written_field applyTable_rlim hdoc (draft_rlim hdoc)
      fun _ => storeRlim_coreHard
    oomScoreAdj := draft_oomScoreAdj hdoc }

theorem writtenValues_draft_iff (hpid : draft.hasPid = true) :
    WrittenValues doc draft.msg ↔
      ∀ text, lastText (bytes "pid") doc = some text →
        intOf text ≤ 2 ^ 31 - 1 := by
  have hlast := draft_pid hdoc
  rw [← hdraft, hpid, if_pos rfl] at hlast
  constructor
  · intro hwritten text htext
    obtain ⟨hvalue, _, hle⟩ := hwritten.pid
    rw [htext, Option.map_some, Option.some.injEq] at hvalue
    rwa [← hvalue]
  · intro hle
    obtain ⟨text, htext, hvalue⟩ := Option.map_eq_some_iff.mp hlast.symm
    obtain ⟨hpositive, _⟩ : 1 ≤ intOf text ∧ intOf text ≤ 2 ^ 63 - 1 :=
      lastText_accepts applyTable_pid hdoc htext
    have hfits := hle text htext
    have hint : draft.msg.pid.toInt = intOf text := by
      rw [← hvalue]
      exact Int32.toInt_ofInt_of_le (by omega) (by omega)
    refine writtenValues_of_pid hdoc hdraft ⟨?_, ?_, ?_⟩
    · rw [htext, hint, Option.map_some]
    · rwa [hint]
    · rwa [hint]

end Written

end HeidiKernel.Gov
