import HeidiKernel.Data.Input
import HeidiKernel.Metrics.History
import HeidiKernel.Transition.Machine
import Mathlib.Algebra.Order.Field.Basic
import Mathlib.Tactic.NormNum

namespace HeidiKernel.Metrics

open Data Numeric Transition

/-! Sampling the load of the processor from the counters of `/proc/stat`. -/

structure CpuStats where
  user : UInt64 := 0
  nice : UInt64 := 0
  system : UInt64 := 0
  idle : UInt64 := 0
  iowait : UInt64 := 0
  irq : UInt64 := 0
  softirq : UInt64 := 0
  deriving DecidableEq, Repr

def parseCpuLine (line : Bytes) : CpuStats :=
  let (_, iss) := IStream.getWord [] { rest := line }
  let (user, iss) := iss.getUnsigned 0
  let (nice, iss) := iss.getUnsigned 0
  let (system, iss) := iss.getUnsigned 0
  let (idle, iss) := iss.getUnsigned 0
  let (iowait, iss) := iss.getUnsigned 0
  let (irq, iss) := iss.getUnsigned 0
  let (softirq, _) := iss.getUnsigned 0
  { user, nice, system, idle, iowait, irq, softirq }

/-- What is read from `/proc/stat`; a file that cannot be opened has no
lines. -/
def readCpuStats (file : Option Bytes) : CpuStats :=
  match (lines (file.getD [])).find? (·.take 3 = bytes "cpu") with
  | none => {}
  | some line => parseCpuLine line

/-- The numbers an expression is computed in. -/
structure Arithmetic (R : Type*) where
  ofNat : Nat → R
  mul : R → R → R
  div : R → R → R

namespace Arithmetic

def double : Arithmetic Double where
  ofNat := .ofNat
  mul := .mul
  div := .div

def exact : Arithmetic ℚ where
  ofNat n := n
  mul := (· * ·)
  div := (· / ·)

end Arithmetic

/-- What one call reads: the clock and the two files. -/
structure Reading where
  now : UInt64
  cpu : CpuStats
  mem : MemStats

structure Sample (R : Type*) where
  cpuUsagePercent : R
  mem : MemStats
  timestamp : UInt64

structure MetricsSampler where
  prevCpu : CpuStats := {}
  firstSample : Bool := true

def CpuStats.total (stats : CpuStats) : UInt64 :=
  stats.user + stats.nice + stats.system + stats.idle + stats.iowait +
    stats.irq + stats.softirq

def cpuUsagePercent {R : Type*} (arith : Arithmetic R)
    (prevCpu current : CpuStats) : R :=
  let deltaTotal := current.total - prevCpu.total
  let deltaIdle := current.idle - prevCpu.idle
  if 0 < deltaTotal then
    arith.div (arith.mul (arith.ofNat 100)
      (arith.ofNat (deltaTotal - deltaIdle).toNat))
      (arith.ofNat deltaTotal.toNat)
  else
    arith.ofNat 0

namespace MetricsSampler

/-- The sample is logged. -/
def sample {R : Type*} (arith : Arithmetic R) (reading : Reading)
    (sampler : MetricsSampler) : Traced (Sample R) MetricsSampler where
  value := { prevCpu := reading.cpu, firstSample := false }
  events :=
    [{ cpuUsagePercent :=
        if sampler.firstSample then
          arith.ofNat 0
        else
          cpuUsagePercent arith sampler.prevCpu reading.cpu
       mem := reading.mem
       timestamp := reading.now }]

def machine {R : Type*} (arith : Arithmetic R) :
    Machine MetricsSampler Reading (Sample R) where
  step sampler reading := sampler.sample arith reading

/-- What a new sampler returns, call by call. -/
def samples {R : Type*} (arith : Arithmetic R) (readings : List Reading) :
    List (Sample R) :=
  ((machine arith).run {} readings).events

end MetricsSampler

/-! Any counters can be read. -/

def CpuStats.counters (stats : CpuStats) : List UInt64 :=
  [stats.user, stats.nice, stats.system, stats.idle, stats.iowait, stats.irq,
    stats.softirq]

def cpuLine (stats : CpuStats) : Bytes :=
  bytes "cpu" ++ IStream.spaced stats.counters

theorem bytes_cpu : bytes "cpu" = [0x63, 0x70, 0x75] := by
  decide +kernel

theorem parseCpuLine_cpuLine (stats : CpuStats) :
    parseCpuLine (cpuLine stats) = stats := by
  have hword : ∀ c ∈ bytes "cpu", isSpace c = false := by
    rw [bytes_cpu]
    exact forall_mem_of_all (by decide)
  have hblank : ∀ c ∈ (IStream.spaced stats.counters).head?,
      isSpace c = true :=
    forall_mem_head?_cons rfl
  have hne : bytes "cpu" ≠ [] := by
    rw [bytes_cpu]
    exact List.cons_ne_nil _ _
  have hskip :=
    IStream.getWord_append (List.forall_mem_nil _) [] hne hword hblank
  rw [List.nil_append] at hskip
  simp only [parseCpuLine, cpuLine, hskip]
  simp only [CpuStats.counters, IStream.getUnsigned_spaced]

/-- Behind the line of all processors nothing is read. -/
theorem readCpuStats_cpuLine (stats : CpuStats) (rest : Bytes) :
    readCpuStats (some (cpuLine stats ++ 0x0a :: rest)) = stats := by
  have hline : (0x0a : UInt8) ∉ cpuLine stats := by
    intro hmem
    rw [cpuLine, bytes_cpu] at hmem
    rcases List.mem_append.mp hmem with hword | hnumbers
    · exact absurd hword (by decide)
    · rcases IStream.spaced_plain _ _ hnumbers with hblank | hdigit
      · exact absurd hblank (by decide)
      · exact absurd hdigit (by decide)
  have hfirst : (cpuLine stats).take 3 = bytes "cpu" := by
    rw [cpuLine, bytes_cpu]
    rfl
  rw [readCpuStats, Option.getD_some, lines_line hline,
    List.find?_cons_of_pos (by simp [hfirst])]
  exact parseCpuLine_cpuLine stats

/-! The share of the counters that were not idle. -/

/-- The counters but for the idle one. -/
def CpuStats.busy (stats : CpuStats) : UInt64 :=
  stats.user + stats.nice + stats.system + stats.iowait + stats.irq +
    stats.softirq

/-- The idle and the other counters did not go back so far that their increases
together wrap beyond a full turn. -/
def Steady (prevCpu current : CpuStats) : Prop :=
  (current.idle - prevCpu.idle).toNat + (current.busy - prevCpu.busy).toNat ≤
    2 ^ 64

instance (prevCpu current : CpuStats) : Decidable (Steady prevCpu current) :=
  inferInstanceAs (Decidable (_ ≤ _))

def IsPercentage (q : ℚ) : Prop := 0 ≤ q ∧ q ≤ 100

theorem total_eq (stats : CpuStats) : stats.total = stats.idle + stats.busy := by
  unfold CpuStats.total CpuStats.busy
  ac_rfl

theorem deltaTotal_eq (prevCpu current : CpuStats) :
    (current.total - prevCpu.total).toNat =
      ((current.idle - prevCpu.idle).toNat +
        (current.busy - prevCpu.busy).toNat) % 2 ^ 64 := by
  have hsplit : current.total - prevCpu.total =
      (current.idle - prevCpu.idle) + (current.busy - prevCpu.busy) := by
    rw [total_eq, total_eq, UInt64.sub_eq_add_neg, UInt64.neg_add,
      UInt64.sub_eq_add_neg, UInt64.sub_eq_add_neg, UInt64.sub_eq_add_neg]
    ac_rfl
  rw [hsplit, UInt64.toNat_add]

/-- The wrapped difference is no larger than what it is taken from exactly if
nothing wrapped. -/
theorem deltaBusy_le_iff {prevCpu current : CpuStats}
    (hpos : 0 < current.total - prevCpu.total) :
    (current.total - prevCpu.total - (current.idle - prevCpu.idle)).toNat ≤
        (current.total - prevCpu.total).toNat ↔
      Steady prevCpu current := by
  have hdelta := deltaTotal_eq prevCpu current
  have hidle := (current.idle - prevCpu.idle).toNat_lt
  have hbusy := (current.busy - prevCpu.busy).toNat_lt
  rw [UInt64.lt_iff_toNat_lt] at hpos
  change 0 < _ at hpos
  rw [Steady, UInt64.toNat_sub]
  omega

theorem isPercentage_div_iff {n d : Nat} (hd : 0 < d) :
    IsPercentage (100 * n / d) ↔ n ≤ d := by
  have hd' : (0 : ℚ) < d := by exact_mod_cast hd
  have hnonneg : (0 : ℚ) ≤ 100 * n / d := by positivity
  rw [IsPercentage, and_iff_right hnonneg, div_le_iff₀ hd',
    mul_le_mul_iff_right₀ (by norm_num), Nat.cast_le]

theorem cpuUsagePercent_isPercentage (prevCpu current : CpuStats) :
    IsPercentage (cpuUsagePercent .exact prevCpu current) ↔
      Steady prevCpu current := by
  unfold cpuUsagePercent
  simp only
  split
  · rename_i hpos
    rw [← deltaBusy_le_iff hpos]
    rw [UInt64.lt_iff_toNat_lt] at hpos
    exact isPercentage_div_iff hpos
  · rename_i hzero
    have hdelta := deltaTotal_eq prevCpu current
    have hidle := (current.idle - prevCpu.idle).toNat_lt
    have hbusy := (current.busy - prevCpu.busy).toNat_lt
    rw [UInt64.lt_iff_toNat_lt] at hzero
    change ¬0 < _ at hzero
    refine iff_of_true ?_ ?_
    · simp [IsPercentage, Arithmetic.exact]
    · rw [Steady]
      omega

namespace MetricsSampler

/-- From the second call on, a sample compares a reading with the one before
it. -/
theorem run_isPercentage (prevCpu : CpuStats) (readings : List Reading) :
    (∀ sample ∈ ((machine .exact).run
        { prevCpu, firstSample := false } readings).events,
      IsPercentage sample.cpuUsagePercent) ↔
      (prevCpu :: readings.map Reading.cpu).IsChain Steady := by
  induction readings generalizing prevCpu with
  | nil => simp
  | cons reading readings ih =>
      rw [Machine.events_run_cons, List.forall_mem_append, List.map_cons,
        List.isChain_cons_cons]
      apply and_congr
      · rw [← cpuUsagePercent_isPercentage]
        exact List.forall_mem_singleton
      · exact ih reading.cpu

/-- Every sample is a percentage exactly if no two readings in a row show
counters that went back too far. -/
theorem samples_isPercentage (readings : List Reading) :
    (∀ sample ∈ samples .exact readings,
      IsPercentage sample.cpuUsagePercent) ↔
      (readings.map Reading.cpu).IsChain Steady := by
  cases readings with
  | nil => simp [samples]
  | cons reading readings =>
      have hfirst : IsPercentage (Arithmetic.exact.ofNat 0) := by
        simp [IsPercentage, Arithmetic.exact]
      rw [samples, Machine.events_run_cons, List.forall_mem_append,
        List.map_cons]
      refine (and_iff_right ?_).trans (run_isPercentage reading.cpu readings)
      exact List.forall_mem_singleton.mpr hfirst

/-- The idle counter goes back by one while the user counter advances by ten:
ten parts in nine. -/
theorem samples_idle_back :
    ¬∀ readings, ∀ sample ∈ samples .exact readings,
      IsPercentage sample.cpuUsagePercent := by
  intro h
  have hsecond := h
    [{ now := 0, cpu := { user := 10, idle := 1000 }, mem := {} },
      { now := 1, cpu := { user := 20, idle := 999 }, mem := {} }]
    { cpuUsagePercent := 100 * (10 : Nat) / (9 : Nat), mem := {},
      timestamp := 1 }
    (List.mem_cons_of_mem _ (List.mem_singleton.mpr rfl))
  have hle : (100 : ℚ) * (10 : Nat) / (9 : Nat) ≤ 100 := hsecond.2
  norm_num at hle

end MetricsSampler

end HeidiKernel.Metrics
