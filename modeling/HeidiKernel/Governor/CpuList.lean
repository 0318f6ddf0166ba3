import HeidiKernel.Data.Loop
import HeidiKernel.Data.Output
import Mathlib.Data.List.Forall2

namespace HeidiKernel

open Data Numeric

/-! The list of CPUs in an affinity string. -/

namespace CpuList

def cpuSetSize : Nat := 1024

abbrev CpuSet := BitVec cpuSetSize

def comma : UInt8 := 0x2c

def dash : UInt8 := 0x2d

/-- Spaces and tabs are removed wherever they are. -/
def strip (part : Bytes) : Bytes := part.filter fun c => c ≠ 0x20 && c ≠ 0x09

def readPart (part : Bytes) : Except ConversionError (Option (Int32 × Int32)) :=
  let part := strip part
  if part = [] then
    pure none
  else if dash ∈ part then do
    let start ← stoi (part.takeWhile (· ≠ dash))
    let stop ← stoi (part.dropWhile (· ≠ dash)).tail
    pure (some (start, stop))
  else do
    let cpu ← stoi part
    pure (some (cpu, cpu))

def readRanges : List Bytes → Except ConversionError (List (Int32 × Int32))
  | [] => pure []
  | part :: parts => do
      let range? ← readPart part
      let ranges ← readRanges parts
      pure (range?.toList ++ ranges)

/-- The loop that checks a range. It ends at the first CPU outside of the set,
so its index does not overflow. -/
def inSet (i stop : Int) : Bool :=
  if i ≤ stop then
    if i < 0 ∨ cpuSetSize ≤ i then false else inSet (i + 1) stop
  else
    true
termination_by (cpuSetSize - i).toNat

/-- The loop that fills in a range. -/
def setCpus (i stop : Int) (mask : CpuSet) : CpuSet :=
  if i ≤ stop then
    setCpus (i + 1) stop (mask ||| BitVec.twoPow cpuSetSize i.toNat)
  else
    mask
termination_by (stop + 1 - i).toNat

end CpuList

open CpuList

/-- The set, or nothing where the source returns false. The parts are what is
between the commas; an empty one, and the loop does not come to the last if it is
empty, adds no range. -/
def parseCpuList (affinity : Bytes) : Except ConversionError (Option CpuSet) := do
  let ranges ← readRanges (affinity.splitOn comma)
  if ranges = [] then
    pure none
  else if ranges.all fun range => inSet range.1.toInt range.2.toInt then
    pure (some (ranges.foldl
      (fun mask range => setCpus range.1.toInt range.2.toInt mask) 0))
  else
    pure none

namespace CpuList

/-! What a list says: its items are single numbers and ranges, in digits. -/

def items (affinity : Bytes) : List Bytes :=
  ((affinity.splitOn comma).map strip).filter (· ≠ [])

structure Decimal (digits : Bytes) : Prop where
  nonempty : digits ≠ []
  digit : ∀ c ∈ digits, isDigit c = true
  small : natOfDigits 10 digits < cpuSetSize

inductive Denotes : Bytes → Nat → Nat → Prop
  | single {digits : Bytes} :
      Decimal digits →
        Denotes digits (natOfDigits 10 digits) (natOfDigits 10 digits)
  | range {low high : Bytes} :
      Decimal low → Decimal high → natOfDigits 10 low ≤ natOfDigits 10 high →
        Denotes (low ++ dash :: high) (natOfDigits 10 low)
          (natOfDigits 10 high)

def WellFormed (affinity : Bytes) : Prop :=
  items affinity ≠ [] ∧ ∀ item ∈ items affinity, ∃ n m, Denotes item n m

/-- The parser answers, it answers with a set exactly to the well-formed lists,
and the set is the union of the items. -/
def Exact (affinity : Bytes) : Prop :=
  ∃ answer, parseCpuList affinity = .ok answer ∧
    (answer.isSome = true ↔ WellFormed affinity) ∧
    ∀ mask, answer = some mask → mask ≠ 0 ∧
      ∀ cpu, mask.getLsbD cpu = true ↔
        ∃ item ∈ items affinity, ∃ n m, Denotes item n m ∧ n ≤ cpu ∧ cpu ≤ m

/-! The loops over the CPUs of a range. -/

theorem inSet_iff (i stop : Int) :
    inSet i stop = true ↔ (i ≤ stop → 0 ≤ i ∧ stop < cpuSetSize) := by
  induction i using inSet.induct stop with
  | case1 i hle hout =>
      rw [inSet, if_pos hle, if_pos hout]
      simp only [Bool.false_eq_true, false_iff, Classical.not_imp]
      exact ⟨hle, by omega⟩
  | case2 i hle hin ih =>
      rw [inSet, if_pos hle, if_neg hin, ih]
      constructor
      · intro h _
        omega
      · intro h _
        omega
  | case3 i hgt =>
      rw [inSet, if_neg hgt]
      simp only [true_iff]
      intro hle
      contradiction

/-- A range that lies in the set adds its CPUs and no others. -/
theorem getLsbD_setCpus {i stop : Int} (hlow : 0 ≤ i)
    (hhigh : stop < cpuSetSize) (mask : CpuSet) (cpu : Nat) :
    (setCpus i stop mask).getLsbD cpu = true ↔
      mask.getLsbD cpu = true ∨ (i ≤ cpu ∧ cpu ≤ stop) := by
  induction i, mask using setCpus.induct stop with
  | case1 i mask hle ih =>
      have hbit : (BitVec.twoPow cpuSetSize i.toNat).getLsbD cpu = true ↔
          (cpu : Int) = i := by
        rw [BitVec.getLsbD_twoPow, Bool.and_eq_true, decide_eq_true_eq,
          decide_eq_true_eq]
        omega
      have hsplit : ((cpu : Int) = i ∨ (i + 1 ≤ cpu ∧ cpu ≤ stop)) ↔
          (i ≤ cpu ∧ cpu ≤ stop) := by
        omega
      rw [setCpus, if_pos hle, ih (by omega), BitVec.getLsbD_or, Bool.or_eq_true,
        hbit, or_assoc, hsplit]
  | case2 i mask hgt =>
      rw [setCpus, if_neg hgt]
      constructor
      · exact .inl
      · intro h
        rcases h with hset | hrange
        · exact hset
        · omega

theorem getLsbD_foldl_setCpus {ranges : List (Int32 × Int32)}
    (h : ∀ range ∈ ranges, inSet range.1.toInt range.2.toInt = true)
    (mask : CpuSet) (cpu : Nat) :
    (ranges.foldl (fun mask range =>
        setCpus range.1.toInt range.2.toInt mask) mask).getLsbD cpu = true ↔
      mask.getLsbD cpu = true ∨
        ∃ range ∈ ranges, range.1.toInt ≤ cpu ∧ cpu ≤ range.2.toInt := by
  induction ranges generalizing mask with
  | nil => simp
  | cons range ranges ih =>
      obtain ⟨hfirst, hrest⟩ := List.forall_mem_cons.mp h
      have hset : (setCpus range.1.toInt range.2.toInt mask).getLsbD cpu =
          true ↔ mask.getLsbD cpu = true ∨
            (range.1.toInt ≤ cpu ∧ cpu ≤ range.2.toInt) := by
        rcases Int.lt_or_le range.2.toInt range.1.toInt with hempty | hsome
        · rw [setCpus, if_neg (by omega)]
          constructor
          · exact .inl
          · intro hcases
            rcases hcases with hmask | hrange
            · exact hmask
            · omega
        · obtain ⟨hlow, hhigh⟩ := (inSet_iff _ _).mp hfirst hsome
          exact getLsbD_setCpus hlow hhigh mask cpu
      rw [List.foldl_cons, ih hrest, hset, or_assoc]
      simp

/-! The parts, as the code reads them. -/

def lower (item : Bytes) : Bytes := item.takeWhile (· ≠ dash)

def upper (item : Bytes) : Bytes :=
  if dash ∈ item then (item.dropWhile (· ≠ dash)).tail else item

/-- The conversions of an item succeed with the two ends of a range. -/
def Names (item : Bytes) (range : Int32 × Int32) : Prop :=
  stoi (lower item) = .ok range.1 ∧ stoi (upper item) = .ok range.2

theorem ne_dash {item : Bytes} (h : dash ∉ item) :
    ∀ c ∈ item, decide (c ≠ dash) = true := by
  intro c hc
  rw [decide_eq_true_eq]
  intro hdash
  exact h (hdash ▸ hc)

theorem takeWhile_of_not_mem {item : Bytes} (h : dash ∉ item) :
    item.takeWhile (· ≠ dash) = item :=
  List.takeWhile_eq_self_iff.mpr (ne_dash h)

theorem names_of_not_mem {item : Bytes} (h : dash ∉ item)
    {range : Int32 × Int32} :
    Names item range ↔ ∃ cpu, stoi item = .ok cpu ∧ (cpu, cpu) = range := by
  rw [Names, lower, upper, takeWhile_of_not_mem h, if_neg h]
  constructor
  · intro hnames
    have hsame := Except.ok.inj (hnames.1.symm.trans hnames.2)
    exact ⟨range.1, hnames.1, Prod.ext rfl hsame⟩
  · intro hcpu
    obtain ⟨cpu, hcpu, rfl⟩ := hcpu
    exact ⟨hcpu, hcpu⟩

theorem names_of_mem {item : Bytes} (h : dash ∈ item)
    {range : Int32 × Int32} :
    Names item range ↔ ∃ start, stoi (item.takeWhile (· ≠ dash)) = .ok start ∧
      ∃ stop, stoi (item.dropWhile (· ≠ dash)).tail = .ok stop ∧
        (start, stop) = range := by
  rw [Names, lower, upper, if_pos h]
  constructor
  · intro hnames
    exact ⟨range.1, hnames.1, range.2, hnames.2, rfl⟩
  · intro hends
    obtain ⟨start, hstart, stop, hstop, rfl⟩ := hends
    exact ⟨hstart, hstop⟩

theorem readPart_of_empty {part : Bytes} (h : strip part = []) :
    readPart part = .ok none := by
  simp [readPart, h]

theorem readPart_eq_ok {part : Bytes} (h : strip part ≠ [])
    {range? : Option (Int32 × Int32)} :
    readPart part = .ok range? ↔
      ∃ range, Names (strip part) range ∧ some range = range? := by
  unfold readPart
  simp only [if_neg h]
  split
  · rename_i hdash
    simp only [names_of_mem hdash, bind_eq_ok, pure_eq_ok, Except.ok.injEq]
    constructor
    · intro hends
      obtain ⟨start, hstart, stop, hstop, hrange⟩ := hends
      exact ⟨(start, stop), ⟨start, hstart, stop, hstop, rfl⟩, hrange⟩
    · intro hends
      obtain ⟨_, ⟨start, hstart, stop, hstop, rfl⟩, hrange⟩ := hends
      exact ⟨start, hstart, stop, hstop, hrange⟩
  · rename_i hdash
    simp only [names_of_not_mem hdash, bind_eq_ok, pure_eq_ok, Except.ok.injEq]
    constructor
    · intro hcpu
      obtain ⟨cpu, hcpu, hrange⟩ := hcpu
      exact ⟨(cpu, cpu), ⟨cpu, hcpu, rfl⟩, hrange⟩
    · intro hcpu
      obtain ⟨_, ⟨cpu, hcpu, rfl⟩, hrange⟩ := hcpu
      exact ⟨cpu, hcpu, hrange⟩

/-- The ranges are those of the items, one for each. -/
theorem readRanges_eq_ok {parts : List Bytes} {ranges : List (Int32 × Int32)} :
    readRanges parts = .ok ranges ↔
      List.Forall₂ Names ((parts.map strip).filter (· ≠ [])) ranges := by
  induction parts generalizing ranges with
  | nil =>
      simp only [readRanges, pure_eq_ok, Except.ok.injEq, List.map_nil,
        List.filter_nil, List.forall₂_nil_left_iff]
      exact eq_comm
  | cons part parts ih =>
      simp only [readRanges, bind_eq_ok, pure_eq_ok, Except.ok.injEq, ih,
        List.map_cons]
      by_cases hempty : strip part = []
      · rw [List.filter_cons_of_neg (by simp [hempty])]
        simp [readPart_of_empty hempty]
      · rw [List.filter_cons_of_pos (by simp [hempty])]
        simp only [readPart_eq_ok hempty, List.forall₂_cons_left_iff]
        constructor
        · intro hread
          obtain ⟨_, ⟨range, hnames, rfl⟩, rest, hrest, rfl⟩ := hread
          exact ⟨range, rest, hnames, hrest, rfl⟩
        · intro hread
          obtain ⟨range, rest, hnames, hrest, rfl⟩ := hread
          exact ⟨_, ⟨range, hnames, rfl⟩, rest, hrest, rfl⟩

/-! Well-formed items. -/

theorem Decimal.stoi {digits : Bytes} (h : Decimal digits) :
    ∃ n, Numeric.stoi digits = .ok n ∧ n.toInt = natOfDigits 10 digits :=
  stoi_digits h.digit h.nonempty (h.small.trans (by decide))

theorem Decimal.dash_not_mem {digits : Bytes} (h : Decimal digits) :
    dash ∉ digits := by
  intro hmem
  exact absurd (h.digit dash hmem) (by decide)

theorem lower_range {low : Bytes} (h : dash ∉ low) (high : Bytes) :
    lower (low ++ dash :: high) = low := by
  exact takeWhile_span_cons (ne_dash h) (decide_eq_false (by simp)) high

theorem upper_range {low : Bytes} (h : dash ∉ low) (high : Bytes) :
    upper (low ++ dash :: high) = high := by
  rw [upper, if_pos (by simp),
    dropWhile_span_cons (ne_dash h) (decide_eq_false (by simp)), List.tail_cons]

theorem Denotes.names {item : Bytes} {n m : Nat} (h : Denotes item n m) :
    ∃ range, Names item range ∧ range.1.toInt = n ∧ range.2.toInt = m := by
  cases h with
  | single hdigits =>
      obtain ⟨cpu, hread, hvalue⟩ := hdigits.stoi
      exact ⟨(cpu, cpu), (names_of_not_mem hdigits.dash_not_mem).mpr
        ⟨cpu, hread, rfl⟩, hvalue, hvalue⟩
  | range hlow hhigh hle =>
      obtain ⟨start, hstart, hfirst⟩ := hlow.stoi
      obtain ⟨stop, hstop, hlast⟩ := hhigh.stoi
      refine ⟨(start, stop), ?_, hfirst, hlast⟩
      rw [Names, lower_range hlow.dash_not_mem, upper_range hlow.dash_not_mem]
      exact ⟨hstart, hstop⟩

theorem Names.unique {item : Bytes} {range other : Int32 × Int32}
    (h : Names item range) (hother : Names item other) : range = other :=
  Prod.ext (Except.ok.inj (h.1.symm.trans hother.1))
    (Except.ok.inj (h.2.symm.trans hother.2))

theorem Denotes.toInt_eq {item : Bytes} {n m : Nat} (h : Denotes item n m)
    {range : Int32 × Int32} (hnames : Names item range) :
    range.1.toInt = n ∧ range.2.toInt = m := by
  obtain ⟨other, hother, hends⟩ := h.names
  rwa [hnames.unique hother]

theorem Denotes.bounds {item : Bytes} {n m : Nat} (h : Denotes item n m) :
    n ≤ m ∧ m < cpuSetSize := by
  cases h with
  | single hdigits => exact ⟨Nat.le_refl _, hdigits.small⟩
  | range _ hhigh hle => exact ⟨hle, hhigh.small⟩

/-- An item whose texts the conversions accept. -/
def Readable (item : Bytes) : Prop := ∃ range, Names item range

/-- An item that names a CPU outside of the set. -/
def Exceeds (item : Bytes) : Prop :=
  ∃ range, Names item range ∧ range.1.toInt ≤ range.2.toInt ∧
    (range.1.toInt < 0 ∨ cpuSetSize ≤ range.2.toInt)

theorem exceeds_iff {item : Bytes} {range : Int32 × Int32}
    (h : Names item range) :
    Exceeds item ↔ inSet range.1.toInt range.2.toInt = false := by
  have hinSet := inSet_iff range.1.toInt range.2.toInt
  rw [← Bool.not_eq_true, hinSet]
  constructor
  · intro hexceeds hbounds
    obtain ⟨other, hother, hle, hout⟩ := hexceeds
    obtain rfl := h.unique hother
    have := hbounds hle
    omega
  · intro hbounds
    refine ⟨range, h, ?_⟩
    omega

theorem Denotes.not_exceeds {item : Bytes} {n m : Nat} (h : Denotes item n m) :
    ¬Exceeds item := by
  intro hexceeds
  obtain ⟨range, hnames, _, hout⟩ := hexceeds
  have hends := h.toInt_eq hnames
  have hbounds := h.bounds
  omega

/-! The whole list. -/

theorem exists_range {texts : List Bytes} {ranges : List (Int32 × Int32)}
    (h : List.Forall₂ Names texts ranges) {item : Bytes} (hitem : item ∈ texts) :
    ∃ range ∈ ranges, Names item range := by
  induction h with
  | nil => contradiction
  | cons hnames _ ih =>
      rcases List.mem_cons.mp hitem with rfl | hrest
      · exact ⟨_, List.mem_cons_self, hnames⟩
      · obtain ⟨range, hrange, hread⟩ := ih hrest
        exact ⟨range, List.mem_cons_of_mem _ hrange, hread⟩

theorem exists_item {texts : List Bytes} {ranges : List (Int32 × Int32)}
    (h : List.Forall₂ Names texts ranges) {range : Int32 × Int32}
    (hrange : range ∈ ranges) : ∃ item ∈ texts, Names item range := by
  induction h with
  | nil => contradiction
  | cons hnames _ ih =>
      rcases List.mem_cons.mp hrange with rfl | hrest
      · exact ⟨_, List.mem_cons_self, hnames⟩
      · obtain ⟨item, hitem, hread⟩ := ih hrest
        exact ⟨item, List.mem_cons_of_mem _ hitem, hread⟩

theorem exists_ranges {texts : List Bytes} (h : ∀ item ∈ texts, Readable item) :
    ∃ ranges, List.Forall₂ Names texts ranges := by
  induction texts with
  | nil => exact ⟨[], .nil⟩
  | cons item texts ih =>
      obtain ⟨⟨range, hnames⟩, hrest⟩ := List.forall_mem_cons.mp h
      obtain ⟨ranges, hranges⟩ := ih hrest
      exact ⟨range :: ranges, .cons hnames hranges⟩

section Ranges

variable {affinity : Bytes} {ranges : List (Int32 × Int32)}
  (h : List.Forall₂ Names (items affinity) ranges)

include h

theorem parseCpuList_eq :
    parseCpuList affinity =
      .ok (if ranges = [] then none
        else if ranges.all fun range =>
            inSet range.1.toInt range.2.toInt then
          some (ranges.foldl (fun mask range =>
            setCpus range.1.toInt range.2.toInt mask) 0)
        else none) := by
  have hread : readRanges (affinity.splitOn comma) = .ok ranges :=
    readRanges_eq_ok.mpr h
  rw [parseCpuList, hread, ok_bind]
  split
  · rfl
  · split <;> rfl

theorem inSet_all_iff :
    (ranges.all fun range => inSet range.1.toInt range.2.toInt) = true ↔
      ∀ item ∈ items affinity, ¬Exceeds item := by
  rw [List.all_eq_true]
  constructor
  · intro hall item hitem hexceeds
    obtain ⟨range, hrange, hnames⟩ := exists_range h hitem
    have hinside := hall range hrange
    rw [(exceeds_iff hnames).mp hexceeds] at hinside
    contradiction
  · intro hall range hrange
    obtain ⟨item, hitem, hnames⟩ := exists_item h hrange
    have hinside := hall item hitem
    rwa [exceeds_iff hnames, Bool.not_eq_false] at hinside

theorem items_eq_nil_iff : items affinity = [] ↔ ranges = [] := by
  rw [← List.length_eq_zero_iff, h.length_eq, List.length_eq_zero_iff]

/-- The set that is filled in is the union of the items. -/
theorem getLsbD_union (hlist : ∀ item ∈ items affinity, ∃ n m, Denotes item n m)
    (cpu : Nat) :
    (ranges.foldl (fun mask range =>
        setCpus range.1.toInt range.2.toInt mask) (0 : CpuSet)).getLsbD cpu =
      true ↔
      ∃ item ∈ items affinity, ∃ n m, Denotes item n m ∧ n ≤ cpu ∧ cpu ≤ m := by
  have hinside := List.all_eq_true.mp ((inSet_all_iff h).mpr fun item hitem => by
    obtain ⟨n, m, hdenotes⟩ := hlist item hitem
    exact hdenotes.not_exceeds)
  have hempty : (0 : CpuSet).getLsbD cpu = false := BitVec.getLsbD_zero
  rw [getLsbD_foldl_setCpus hinside, hempty]
  simp only [Bool.false_eq_true, false_or]
  constructor
  · intro hrange
    obtain ⟨range, hrange, hlow, hhigh⟩ := hrange
    obtain ⟨item, hitem, hnames⟩ := exists_item h hrange
    obtain ⟨n, m, hdenotes⟩ := hlist item hitem
    have hends := hdenotes.toInt_eq hnames
    exact ⟨item, hitem, n, m, hdenotes, by omega, by omega⟩
  · intro hitem
    obtain ⟨item, hitem, n, m, hdenotes, hlow, hhigh⟩ := hitem
    obtain ⟨range, hrange, hnames⟩ := exists_range h hitem
    have hends := hdenotes.toInt_eq hnames
    exact ⟨range, hrange, by omega, by omega⟩

theorem union_ne_zero (hne : items affinity ≠ [])
    (hlist : ∀ item ∈ items affinity, ∃ n m, Denotes item n m) :
    ranges.foldl (fun mask range =>
      setCpus range.1.toInt range.2.toInt mask) (0 : CpuSet) ≠ 0 := by
  intro hzero
  obtain ⟨item, hitem⟩ := List.exists_mem_of_ne_nil _ hne
  obtain ⟨n, m, hdenotes⟩ := hlist item hitem
  have hset := (getLsbD_union h hlist n).mpr
    ⟨item, hitem, n, m, hdenotes, Nat.le_refl n, hdenotes.bounds.1⟩
  have hempty : (0 : CpuSet).getLsbD n = false := BitVec.getLsbD_zero
  rw [hzero, hempty] at hset
  contradiction

theorem exact_of_denotes
    (hlist : ∀ item ∈ items affinity, ∃ n m, Denotes item n m) :
    Exact affinity := by
  have hinside := (inSet_all_iff h).mpr fun item hitem => by
    obtain ⟨n, m, hdenotes⟩ := hlist item hitem
    exact hdenotes.not_exceeds
  refine ⟨_, parseCpuList_eq h, ?_⟩
  split
  · rename_i hempty
    have hnone := (items_eq_nil_iff h).mpr hempty
    refine ⟨?_, fun mask hmask => by contradiction⟩
    simp [WellFormed, hnone]
  · rename_i hranges
    have hne : items affinity ≠ [] := fun hnone =>
      hranges ((items_eq_nil_iff h).mp hnone)
    refine ⟨iff_of_true rfl ⟨hne, hlist⟩, ?_⟩
    intro mask hmask
    obtain rfl := Option.some.inj hmask
    exact ⟨union_ne_zero h hne hlist, getLsbD_union h hlist⟩

theorem exact_of_exceeds (hexceeds : ∃ item ∈ items affinity, Exceeds item) :
    Exact affinity := by
  obtain ⟨item, hitem, hout⟩ := hexceeds
  have hinside : ¬(ranges.all fun range =>
      inSet range.1.toInt range.2.toInt) = true := by
    rw [inSet_all_iff h]
    intro hall
    exact hall item hitem hout
  have hanswer := parseCpuList_eq h
  rw [if_neg hinside, ite_self] at hanswer
  refine ⟨none, hanswer, ?_, fun mask hmask => by contradiction⟩
  refine iff_of_false (by decide) ?_
  intro hformed
  obtain ⟨n, m, hdenotes⟩ := hformed.2 item hitem
  exact hdenotes.not_exceeds hout

theorem denotes_or_exceeds (hexact : Exact affinity) :
    (∀ item ∈ items affinity, ∃ n m, Denotes item n m) ∨
      ∃ item ∈ items affinity, Exceeds item := by
  obtain ⟨answer, hanswer, hformed, _⟩ := hexact
  rw [parseCpuList_eq h, Except.ok.injEq] at hanswer
  by_contra hneither
  rw [not_or] at hneither
  have hinside := (inSet_all_iff h).mpr fun item hitem hout =>
    hneither.2 ⟨item, hitem, hout⟩
  have hne : ranges ≠ [] := by
    intro hempty
    apply hneither.1
    rw [(items_eq_nil_iff h).mpr hempty]
    exact List.forall_mem_nil _
  rw [if_neg hne, if_pos hinside] at hanswer
  rw [← hanswer] at hformed
  exact hneither.1 (hformed.mp rfl).2

end Ranges

/-- The parser is exact on a list exactly if the conversions accept all its
items, and either all of them are well formed or one names a CPU that does not
exist. -/
theorem parseCpuList_exact_iff (affinity : Bytes) :
    Exact affinity ↔
      (∀ item ∈ items affinity, Readable item) ∧
        ((∀ item ∈ items affinity, ∃ n m, Denotes item n m) ∨
          ∃ item ∈ items affinity, Exceeds item) := by
  constructor
  · intro hexact
    obtain ⟨answer, hanswer, _⟩ := id hexact
    obtain ⟨ranges, hranges, _⟩ := bind_eq_ok.mp hanswer
    have h := readRanges_eq_ok.mp hranges
    refine ⟨?_, denotes_or_exceeds h hexact⟩
    intro item hitem
    obtain ⟨range, _, hnames⟩ := exists_range h hitem
    exact ⟨range, hnames⟩
  · intro hlist
    obtain ⟨hreadable, hcases⟩ := hlist
    obtain ⟨ranges, h⟩ := exists_ranges hreadable
    cases hcases with
    | inl hdenotes => exact exact_of_denotes h hdenotes
    | inr hexceeds => exact exact_of_exceeds h hexceeds

/-- A list that is no number ends the parser with an exception. -/
theorem letters_not_exact : ¬Exact (bytes "abc") := by
  intro hexact
  obtain ⟨answer, hanswer, _⟩ := hexact
  obtain ⟨ranges, hranges, _⟩ := bind_eq_ok.mp hanswer
  have hthrown : readRanges ((bytes "abc").splitOn comma) =
      .error .invalidArgument := by
    decide +kernel
  rw [hthrown] at hranges
  contradiction

end CpuList

end HeidiKernel
