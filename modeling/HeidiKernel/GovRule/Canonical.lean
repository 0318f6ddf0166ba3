import HeidiKernel.GovRule.Print

namespace HeidiKernel.Gov

/-! The documents of a message: the fields that are present, in any order. -/

def entryOf (key : String) (value : Option Scalar) : List Entry :=
  (value.map (⟨bytes key, ·⟩)).toList

def cpuEntries (policy : CpuPolicy) : List Entry :=
  entryOf "affinity" (policy.affinity.map .string) ++
    (entryOf "nice" (policy.nice.map fun value => .number value.toInt) ++
      entryOf "max_pct" (policy.maxPct.map fun value => .number value.toNat))

def memEntries (policy : MemPolicy) : List Entry :=
  entryOf "max_bytes" (policy.maxBytes.map fun value => .number value.toNat)

def pidsEntries (policy : PidsPolicy) : List Entry :=
  entryOf "max" (policy.max.map fun value => .number value.toNat)

def rlimEntries (policy : RlimPolicy) : List Entry :=
  entryOf "nofile_soft"
      (policy.nofileSoft.map fun value => .number value.toNat) ++
    (entryOf "nofile_hard"
        (policy.nofileHard.map fun value => .number value.toNat) ++
      (entryOf "core_soft"
          (policy.coreSoft.map fun value => .number value.toNat) ++
        entryOf "core_hard"
          (policy.coreHard.map fun value => .number value.toNat)))

def scalarOf (key : String) (value : Option Scalar) : List Element :=
  (entryOf key value).map .scalar

/-- The element of a sub-object, if it is present. -/
def objectOf {σ : Type} (key : String) (policy : Option σ)
    (entries : List Entry) : List Element :=
  (policy.map fun _ => .object (bytes key) entries).toList

/-- An order for the fields of every sub-object, and one for the members. -/
structure Layout (msg : GovApplyMsg) where
  cpu : List Entry
  mem : List Entry
  pids : List Entry
  rlim : List Entry
  elements : List Element
  cpu_perm : ∀ policy ∈ msg.cpu, cpu.Perm (cpuEntries policy)
  mem_perm : ∀ policy ∈ msg.mem, mem.Perm (memEntries policy)
  pids_perm : ∀ policy ∈ msg.pids, pids.Perm (pidsEntries policy)
  rlim_perm : ∀ policy ∈ msg.rlim, rlim.Perm (rlimEntries policy)
  elements_perm : elements.Perm
    (scalarOf "pid" (some (.number msg.pid.toInt)) ++
      (objectOf "cpu" msg.cpu cpu ++ (objectOf "mem" msg.mem mem ++
        (objectOf "pids" msg.pids pids ++ (objectOf "rlim" msg.rlim rlim ++
          scalarOf "oom_score_adj"
            (msg.oomScoreAdj.map fun adj => .number adj.toInt))))))

def Layout.print {msg : GovApplyMsg} (layout : Layout msg) : Bytes :=
  printDocument layout.elements

/-- A message the grammar has a document for. -/
structure Printable (msg : GovApplyMsg) : Prop where
  pid : 1 ≤ msg.pid.toInt
  affinity : ∀ policy ∈ msg.cpu, ∀ text ∈ policy.affinity, Plain text
  oomScoreAdj : ∀ adj ∈ msg.oomScoreAdj,
    -1000 ≤ adj.toInt ∧ adj.toInt ≤ 1000

/-! Every value fits its field. -/

def memberKeys : List String :=
  ["pid", "cpu", "mem", "pids", "rlim", "oom_score_adj", "affinity", "nice",
    "max_pct", "max_bytes", "max", "nofile_soft", "nofile_hard", "core_soft",
    "core_hard"]

theorem plain_key : ∀ key ∈ memberKeys, Plain (bytes key) := by
  decide +kernel

section Fits

variable {table : Table} {key : String} {value : Option Scalar} {kind : Kind}

theorem fits_entryOf (hkey : key ∈ memberKeys)
    (hkind : table (bytes key) = some kind)
    (hvalue : ∀ scalar ∈ value, kind.Takes scalar) :
    ∀ entry ∈ entryOf key value, entry.Fits table := by
  cases value with
  | none => exact fun _ hentry => absurd hentry List.not_mem_nil
  | some scalar =>
      intro entry hentry
      obtain rfl := List.mem_singleton.mp hentry
      exact ⟨plain_key key hkey, kind, hkind, hvalue scalar rfl⟩

theorem fits_scalarOf (hkey : key ∈ memberKeys)
    (hkind : applyTable (bytes key) = some (.literal kind))
    (hvalue : ∀ scalar ∈ value, kind.Takes scalar) :
    ∀ element ∈ scalarOf key value, element.Fits := by
  cases value with
  | none => exact fun _ helement => absurd helement List.not_mem_nil
  | some scalar =>
      intro element helement
      obtain rfl := List.mem_singleton.mp helement
      exact .scalar (plain_key key hkey) hkind (hvalue scalar rfl)

theorem fits_objectOf {σ : Type} {policy : Option σ} {entries : List Entry}
    (hkey : key ∈ memberKeys)
    (htable : applyTable (bytes key) = some (.object table))
    (hentries : ∀ p ∈ policy, ∀ entry ∈ entries, entry.Fits table) :
    ∀ element ∈ objectOf key policy entries, element.Fits := by
  cases policy with
  | none => exact fun _ helement => absurd helement List.not_mem_nil
  | some p =>
      intro element helement
      obtain rfl := List.mem_singleton.mp helement
      exact .object (plain_key key hkey) htable (hentries p rfl)

theorem takes_uint {β : Type} {hi : Nat} {toNat : β → Nat}
    (h : ∀ b, toNat b ≤ hi) (value : Option β) :
    ∀ scalar ∈ value.map fun b => Scalar.number (toNat b),
      (Kind.uint hi).Takes scalar := by
  intro scalar hscalar
  obtain ⟨b, _, rfl⟩ := Option.map_eq_some_iff.mp hscalar
  exact .uint (h b)

end Fits

theorem cpuEntries_fits {policy : CpuPolicy}
    (haffinity : ∀ text ∈ policy.affinity, Plain text) :
    ∀ entry ∈ cpuEntries policy, entry.Fits cpuTable := by
  have hstring : cpuTable (bytes "affinity") = some .string := by
    simp [cpuTable]
  have hint : cpuTable (bytes "nice") = some (.int (-128) 127) := by
    simp [cpuTable]
  refine List.forall_mem_append.mpr ⟨?_, List.forall_mem_append.mpr ⟨?_, ?_⟩⟩
  · refine fits_entryOf (by decide) hstring ?_
    intro scalar hscalar
    obtain ⟨text, htext, rfl⟩ := Option.map_eq_some_iff.mp hscalar
    exact .string (haffinity text htext)
  · refine fits_entryOf (by decide) hint ?_
    intro scalar hscalar
    obtain ⟨nice, _, rfl⟩ := Option.map_eq_some_iff.mp hscalar
    exact .int nice.le_toInt (Int.le_of_lt_add_one nice.toInt_lt)
  · exact fits_entryOf (by decide) (by simp [cpuTable])
      (takes_uint (fun pct => Nat.le_of_lt_succ pct.toNat_lt) _)

theorem memEntries_fits (policy : MemPolicy) :
    ∀ entry ∈ memEntries policy, entry.Fits memTable :=
  fits_entryOf (by decide) (by simp [memTable])
    (takes_uint (fun n => Nat.le_of_lt_succ n.toNat_lt) _)

theorem pidsEntries_fits (policy : PidsPolicy) :
    ∀ entry ∈ pidsEntries policy, entry.Fits pidsTable :=
  fits_entryOf (by decide) (by simp [pidsTable])
    (takes_uint (fun n => Nat.le_of_lt_succ n.toNat_lt) _)

theorem rlimEntries_fits (policy : RlimPolicy) :
    ∀ entry ∈ rlimEntries policy, entry.Fits rlimTable := by
  have hfits (key : String) (value : Option UInt64) (hkey : key ∈ memberKeys)
      (hkind : rlimTable (bytes key) = some (.uint (2 ^ 64 - 1))) :
      ∀ entry ∈ entryOf key (value.map fun n => .number n.toNat),
        entry.Fits rlimTable :=
    fits_entryOf hkey hkind
      (takes_uint (fun n => Nat.le_of_lt_succ n.toNat_lt) value)
  refine List.forall_mem_append.mpr ⟨?_, List.forall_mem_append.mpr
    ⟨?_, List.forall_mem_append.mpr ⟨?_, ?_⟩⟩⟩
  all_goals exact hfits _ _ (by decide) (by simp [rlimTable])

theorem Layout.fits {msg : GovApplyMsg} (layout : Layout msg)
    (h : Printable msg) : ∀ element ∈ layout.elements, element.Fits := by
  have hpid : ∀ element ∈ scalarOf "pid" (some (.number msg.pid.toInt)),
      element.Fits := by
    refine fits_scalarOf (by decide) applyTable_pid ?_
    intro scalar hscalar
    obtain rfl := Option.some.inj hscalar
    have hlt := msg.pid.toInt_lt
    exact .int h.pid (by omega)
  have hoom : ∀ element ∈ scalarOf "oom_score_adj"
      (msg.oomScoreAdj.map fun adj => .number adj.toInt), element.Fits := by
    refine fits_scalarOf (by decide) applyTable_oom ?_
    intro scalar hscalar
    obtain ⟨adj, hadj, rfl⟩ := Option.map_eq_some_iff.mp hscalar
    exact .int (h.oomScoreAdj adj hadj).1 (h.oomScoreAdj adj hadj).2
  intro element helement
  have hmem := layout.elements_perm.mem_iff.mp helement
  simp only [List.mem_append] at hmem
  rcases hmem with hmem | hmem | hmem | hmem | hmem | hmem
  · exact hpid element hmem
  · refine fits_objectOf (by decide) applyTable_cpu ?_ element hmem
    intro policy hpolicy entry hentry
    exact cpuEntries_fits (h.affinity policy hpolicy) entry
      ((layout.cpu_perm policy hpolicy).mem_iff.mp hentry)
  · refine fits_objectOf (by decide) applyTable_mem ?_ element hmem
    intro policy hpolicy entry hentry
    exact memEntries_fits policy entry
      ((layout.mem_perm policy hpolicy).mem_iff.mp hentry)
  · refine fits_objectOf (by decide) applyTable_pids ?_ element hmem
    intro policy hpolicy entry hentry
    exact pidsEntries_fits policy entry
      ((layout.pids_perm policy hpolicy).mem_iff.mp hentry)
  · refine fits_objectOf (by decide) applyTable_rlim ?_ element hmem
    intro policy hpolicy entry hentry
    exact rlimEntries_fits policy entry
      ((layout.rlim_perm policy hpolicy).mem_iff.mp hentry)
  · exact hoom element hmem

/-! What the parser makes of a policy's entries, whatever their order. -/

theorem getLast?_of_perm {α : Type} {l : List α} {o : Option α}
    (h : l.Perm o.toList) : l.getLast? = o := by
  cases o with
  | none => rw [List.perm_nil.mp h, List.getLast?_nil]
  | some a => rw [List.perm_singleton.mp h, List.getLast?_singleton]

def Entry.under (field : Bytes) (entry : Entry) : Option Bytes :=
  entry.literal.under field

@[simp] theorem filterMap_entryOf (field : Bytes) (key : String)
    (value : Option Scalar) :
    (entryOf key value).filterMap (Entry.under field) =
      if bytes key = field then (value.map Scalar.text).toList else [] := by
  cases value with
  | none => simp [entryOf]
  | some scalar =>
      by_cases hkey : bytes key = field <;>
        simp [entryOf, Entry.under, Entry.literal, Literal.under, hkey]

/-- The last value under a key that occurs once at most. -/
theorem lastNumber_of_perm {ν : Type} {number : Bytes → ν} {field : Bytes}
    {entries canonical : List Entry} (hperm : entries.Perm canonical)
    (value : Option Scalar)
    (honly : canonical.filterMap (Entry.under field) =
      (value.map Scalar.text).toList) :
    lastNumber number field (entries.map Entry.literal) =
      value.map fun scalar => number scalar.text := by
  have hunder := hperm.filterMap (Entry.under field)
  rw [honly] at hunder
  rw [lastNumber, List.filterMap_map]
  change (List.getLast? (entries.filterMap (Entry.under field))).map number = _
  rw [getLast?_of_perm hunder, Option.map_map]
  rfl

theorem Entry.Fits.accepted {table : Table} {entries canonical : List Entry}
    (hperm : entries.Perm canonical)
    (h : ∀ entry ∈ canonical, entry.Fits table) :
    ∀ m ∈ entries.map Entry.literal, m.Accepted table := by
  intro m hm
  obtain ⟨entry, hentry, rfl⟩ := List.mem_map.mp hm
  obtain ⟨_, kind, hkind, htakes⟩ := h entry (hperm.mem_iff.mp hentry)
  exact ⟨kind, hkind, htakes.accepts⟩

@[simp] theorem intOf_text (n : Int) :
    intOf (Scalar.number n).text = n := intOf_decimalInt n

@[simp] theorem natOf_text (n : Nat) : natOf (Scalar.number n).text = n := by
  rw [Scalar.text, decimalInt, if_neg (by omega), Int.natAbs_natCast,
    natOf_decimal]

section Stored

variable {β : Type} {field : Bytes} {entries canonical : List Entry}
  (hperm : entries.Perm canonical) {stored value : Option β}

include hperm

theorem int_of_perm {toInt : β → Int}
    (hinj : ∀ {a b}, toInt a = toInt b ↔ a = b)
    (hstored : stored.map toInt =
      lastNumber intOf field (entries.map Entry.literal))
    (honly : canonical.filterMap (Entry.under field) =
      ((value.map fun b => Scalar.number (toInt b)).map Scalar.text).toList) :
    stored = value := by
  rw [lastNumber_of_perm hperm _ honly, Option.map_map] at hstored
  simp only [Function.comp_def, intOf_text] at hstored
  exact Option.map_injective (fun _ _ => hinj.mp) hstored

theorem nat_of_perm {toNat : β → Nat}
    (hinj : ∀ {a b}, toNat a = toNat b ↔ a = b)
    (hstored : stored.map toNat =
      lastNumber natOf field (entries.map Entry.literal))
    (honly : canonical.filterMap (Entry.under field) =
      ((value.map fun b => Scalar.number (toNat b)).map Scalar.text).toList) :
    stored = value := by
  rw [lastNumber_of_perm hperm _ honly, Option.map_map] at hstored
  simp only [Function.comp_def, natOf_text] at hstored
  exact Option.map_injective (fun _ _ => hinj.mp) hstored

end Stored

section Policies

attribute [ext] CpuPolicy MemPolicy PidsPolicy RlimPolicy GovApplyMsg

variable {entries : List Entry}

theorem foldl_cpuEntries {policy : CpuPolicy}
    (hperm : entries.Perm (cpuEntries policy))
    (haffinity : ∀ text ∈ policy.affinity, Plain text) :
    (entries.map Entry.literal).foldl storeCpu {} = policy := by
  have haccepted := Entry.Fits.accepted hperm (cpuEntries_fits haffinity)
  ext1
  · rw [storeCpu_affinity haccepted,
      lastNumber_of_perm hperm (policy.affinity.map .string)
        (by simp [cpuEntries]), Option.map_map]
    exact Option.map_id_apply
  · exact int_of_perm hperm Int8.toInt_inj (storeCpu_nice haccepted)
      (by simp [cpuEntries])
  · exact nat_of_perm hperm UInt8.toNat_inj (storeCpu_maxPct haccepted)
      (by simp [cpuEntries])

theorem foldl_memEntries {policy : MemPolicy}
    (hperm : entries.Perm (memEntries policy)) :
    (entries.map Entry.literal).foldl storeMem {} = policy := by
  have haccepted := Entry.Fits.accepted hperm (memEntries_fits policy)
  ext1
  exact nat_of_perm hperm UInt64.toNat_inj (storeMem_maxBytes haccepted)
    (by simp [memEntries])

theorem foldl_pidsEntries {policy : PidsPolicy}
    (hperm : entries.Perm (pidsEntries policy)) :
    (entries.map Entry.literal).foldl storePids {} = policy := by
  have haccepted := Entry.Fits.accepted hperm (pidsEntries_fits policy)
  ext1
  exact nat_of_perm hperm UInt32.toNat_inj (storePids_max haccepted)
    (by simp [pidsEntries])

theorem foldl_rlimEntries {policy : RlimPolicy}
    (hperm : entries.Perm (rlimEntries policy)) :
    (entries.map Entry.literal).foldl storeRlim {} = policy := by
  have haccepted := Entry.Fits.accepted hperm (rlimEntries_fits policy)
  ext1
  · exact nat_of_perm hperm UInt64.toNat_inj (storeRlim_nofileSoft haccepted)
      (by simp [rlimEntries])
  · exact nat_of_perm hperm UInt64.toNat_inj (storeRlim_nofileHard haccepted)
      (by simp [rlimEntries])
  · exact nat_of_perm hperm UInt64.toNat_inj (storeRlim_coreSoft haccepted)
      (by simp [rlimEntries])
  · exact nat_of_perm hperm UInt64.toNat_inj (storeRlim_coreHard haccepted)
      (by simp [rlimEntries])

end Policies

/-! What the parser makes of a message's members, whatever their order. -/

def Element.textUnder (key : Bytes) (element : Element) : Option Bytes :=
  element.member.textUnder key

def Element.fieldsUnder (key : Bytes) (element : Element) :
    Option (List Literal) :=
  element.member.fieldsUnder key

section Elements

variable (field : Bytes) (key : String)

@[simp] theorem textUnder_scalarOf (value : Option Scalar) :
    (scalarOf key value).filterMap (Element.textUnder field) =
      if bytes key = field then (value.map Scalar.text).toList else [] := by
  rw [← filterMap_entryOf, scalarOf, List.filterMap_map]
  rfl

@[simp] theorem textUnder_objectOf {σ : Type} (policy : Option σ)
    (entries : List Entry) :
    (objectOf key policy entries).filterMap (Element.textUnder field) =
      [] := by
  cases policy <;> rfl

@[simp] theorem fieldsUnder_scalarOf (value : Option Scalar) :
    (scalarOf key value).filterMap (Element.fieldsUnder field) = [] := by
  cases value <;> rfl

@[simp] theorem fieldsUnder_objectOf {σ : Type} (policy : Option σ)
    (entries : List Entry) :
    (objectOf key policy entries).filterMap (Element.fieldsUnder field) =
      if bytes key = field then
        (policy.map fun _ => entries.map Entry.literal).toList
      else [] := by
  cases policy with
  | none => simp [objectOf]
  | some p =>
      by_cases hkey : bytes key = field <;>
        simp [objectOf, Element.fieldsUnder, Element.member,
          Member.fieldsUnder, hkey]

end Elements

section Members

variable {elements canonical : List Element}
  (hperm : elements.Perm canonical) {field : Bytes}

include hperm

theorem lastText_of_perm (value : Option Scalar)
    (honly : canonical.filterMap (Element.textUnder field) =
      (value.map Scalar.text).toList) :
    lastText field (elements.map Element.member) =
      value.map Scalar.text := by
  have hunder := hperm.filterMap (Element.textUnder field)
  rw [honly] at hunder
  rw [lastText, List.filterMap_map]
  exact getLast?_of_perm hunder

theorem object_of_perm {σ : Type} {store : σ → Literal → σ} {init : σ}
    {policy : Option σ} {entries : List Entry}
    (hfold : ∀ p ∈ policy, (entries.map Entry.literal).foldl store init = p)
    (honly : canonical.filterMap (Element.fieldsUnder field) =
      (policy.map fun _ => entries.map Entry.literal).toList) :
    ((elements.map Element.member).filterMap fun m =>
      (m.fieldsUnder field).map (·.foldl store init)).getLast? = policy := by
  have hunder := hperm.filterMap (Element.fieldsUnder field)
  rw [honly] at hunder
  rw [← List.map_filterMap, List.getLast?_map, List.filterMap_map]
  change (List.getLast? (elements.filterMap (Element.fieldsUnder field))).map
    _ = policy
  rw [getLast?_of_perm hunder, Option.map_map]
  cases policy with
  | none => rfl
  | some p => exact congrArg some (hfold p rfl)

end Members

theorem Element.Fits.accepted {element : Element} (h : element.Fits) :
    element.member.Accepted := by
  cases h with
  | scalar _ hkind htakes => exact .literal hkind htakes.accepts
  | object _ htable hentries =>
      exact .object htable (Entry.Fits.accepted (.refl _) hentries)

section Layout

variable {msg : GovApplyMsg} (layout : Layout msg) (h : Printable msg)

include h

theorem Layout.accepted :
    ∀ m ∈ layout.elements.map Element.member, m.Accepted := by
  intro m hm
  obtain ⟨element, helement, rfl⟩ := List.mem_map.mp hm
  exact (layout.fits h element helement).accepted

/-- The members make up the message again. -/
theorem Layout.foldl_eq :
    ∃ draft : Draft,
      (layout.elements.map Element.member).foldl storeMember {} = draft ∧
        draft.hasPid = true ∧ draft.msg = msg := by
  have haccepted := layout.accepted h
  have hpid := draft_pid haccepted
  rw [lastText_of_perm layout.elements_perm
    (some (.number msg.pid.toInt)) (by simp)] at hpid
  have hhasPid : ((layout.elements.map Element.member).foldl storeMember
      {}).hasPid = true := by
    by_contra hnone
    rw [if_neg hnone] at hpid
    contradiction
  refine ⟨_, rfl, hhasPid, ?_⟩
  ext1
  · rw [if_pos hhasPid] at hpid
    simpa using hpid
  · rw [draft_cpu haccepted]
    exact object_of_perm layout.elements_perm
      (fun policy hpolicy => foldl_cpuEntries (layout.cpu_perm policy hpolicy)
        (h.affinity policy hpolicy)) (by simp)
  · rw [draft_mem haccepted]
    exact object_of_perm layout.elements_perm
      (fun policy hpolicy => foldl_memEntries
        (layout.mem_perm policy hpolicy)) (by simp)
  · rw [draft_pids haccepted]
    exact object_of_perm layout.elements_perm
      (fun policy hpolicy => foldl_pidsEntries
        (layout.pids_perm policy hpolicy)) (by simp)
  · rw [draft_rlim haccepted]
    exact object_of_perm layout.elements_perm
      (fun policy hpolicy => foldl_rlimEntries
        (layout.rlim_perm policy hpolicy)) (by simp)
  · have hoom := draft_oomScoreAdj haccepted
    rw [lastText_of_perm layout.elements_perm
      (msg.oomScoreAdj.map (.number ·.toInt)) (by simp)] at hoom
    simp only [Option.map_map, Function.comp_def, intOf_text] at hoom
    exact Option.map_injective (fun _ _ => Int32.toInt_inj.mp) hoom

/-- A message comes back from its text, whatever the order of the members. -/
theorem parseGovApply_print (hfits : layout.print.length ≤ 512) :
    parseGovApply layout.print =
      .ok { success := true, ack := .ack, msg } := by
  have hreads := reads_printDocument (layout.fits h) hfits
  obtain ⟨draft, hfold, hpid, hmsg⟩ := layout.foldl_eq h
  rw [Layout.print, parseGovApply_of_reads hreads, hfold]
  simp [conclude, hpid, hmsg]

end Layout

section Sample

/-! A message with its members and its fields out of order. -/

def sampleMsg : GovApplyMsg where
  pid := 1234
  cpu := some { affinity := some (bytes "0-3"), nice := some (-10) }
  mem := some {}
  oomScoreAdj := some 500

def sampleCpu : List Entry :=
  [⟨bytes "nice", .number (-10)⟩, ⟨bytes "affinity", .string (bytes "0-3")⟩]

def sampleLayout : Layout sampleMsg where
  cpu := sampleCpu
  mem := []
  pids := []
  rlim := []
  elements := [.scalar ⟨bytes "oom_score_adj", .number 500⟩,
    .object (bytes "mem") [], .scalar ⟨bytes "pid", .number 1234⟩,
    .object (bytes "cpu") sampleCpu]
  cpu_perm := by decide +kernel
  mem_perm := by decide +kernel
  pids_perm := by decide +kernel
  rlim_perm := by decide +kernel
  elements_perm := by decide +kernel

theorem sample_printable : Printable sampleMsg where
  pid := by decide +kernel
  affinity := by decide +kernel
  oomScoreAdj := by
    intro adj hadj
    obtain rfl := Option.some.inj hadj
    decide

theorem parseGovApply_sample :
    sampleLayout.print = bytes ("\x7b\"oom_score_adj\":500,\"mem\":\x7b\x7d," ++
      "\"pid\":1234,\"cpu\":\x7b\"nice\":-10,\"affinity\":\"0-3\"\x7d\x7d") ∧
      parseGovApply sampleLayout.print =
        .ok { success := true, ack := .ack, msg := sampleMsg } :=
  ⟨by decide +kernel, parseGovApply_print sampleLayout sample_printable
    (by decide +kernel)⟩

end Sample

end HeidiKernel.Gov
