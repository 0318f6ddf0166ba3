import HeidiKernel.Data.DoubleText
import HeidiKernel.Metrics.History

namespace HeidiKernel.Metrics

open Data Numeric

/-! Reading the history back. Only the current file is read. -/

/-- Every extraction into `comma` overwrites it, and nothing reads it. -/
def parseRecord (text : Bytes) : SystemMetrics :=
  let (timestamp, iss) := IStream.getUnsigned 0 { rest := text }
  let (comma, iss) := iss.getChar 0
  let (cpuUsagePercent, iss) := iss.getDouble (.finite false 0)
  let (comma, iss) := iss.getChar comma
  let (total, iss) := iss.getUnsigned 0
  let (comma, iss) := iss.getChar comma
  let (free, iss) := iss.getUnsigned 0
  let (_, iss) := iss.getChar comma
  let (available, _) := iss.getUnsigned 0
  { timestamp, cpuUsagePercent, mem := { total, free, available } }

namespace MetricsHistory

def tail (n : UInt64) (history : MetricsHistory) : List SystemMetrics :=
  match history.dir.lookup (history.logFile 0) with
  | none => []
  | some file =>
      let records := lines file
      let start :=
        if n.toNat < records.length then records.length - n.toNat else 0
      (records.drop start).map parseRecord

/-- How many records a file holds. -/
def recordsIn (i : Nat) (history : MetricsHistory) : Nat :=
  (lines (history.content i)).length

/-- How many records all files hold. -/
def kept (history : MetricsHistory) : Nat :=
  ((List.range history.maxFiles.toNat).map (history.recordsIn ·)).sum

end MetricsHistory

/-- The last `n` of the records, or all of them. -/
def lastOf (n : Nat) (records : List SystemMetrics) : List SystemMetrics :=
  records.drop (records.length - n)

/-- What of a record must survive in the history. -/
def stored (metrics : SystemMetrics) : UInt64 × MemStats :=
  (metrics.timestamp, metrics.mem)

/-- The type of doubles also has rational numbers that no double is. -/
def InRange (metrics : SystemMetrics) : Prop :=
  ∀ negative q, metrics.cpuUsagePercent = .finite negative q → q < Double.bound

/-- A line with the word for a NaN or an infinity is read up to that word
only. -/
def Legible (metrics : SystemMetrics) : Prop :=
  metrics.cpuUsagePercent.toRat?.isSome ∨ metrics.mem = {}

/-! One line. -/

/-- A line without its end. -/
def lineText (metrics : SystemMetrics) : Bytes :=
  print 10 metrics.timestamp.toNat ++
    (0x2c :: (metrics.cpuUsagePercent.print ++
      (0x2c :: (print 10 metrics.mem.total.toNat ++
        (0x2c :: (print 10 metrics.mem.free.toNat ++
          (0x2c :: (print 10 metrics.mem.available.toNat ++ []))))))))

theorem line_eq (metrics : SystemMetrics) :
    line metrics = lineText metrics ++ [0x0a] := by
  have hcomma : bytes "," = [0x2c] := by decide +kernel
  have hend : bytes "\n" = [0x0a] := by decide +kernel
  rw [line, hcomma, hend, lineText]
  simp

theorem comma_ends (rest : Bytes) : Double.Ends (0x2c :: rest) :=
  forall_mem_head?_cons (by decide)

theorem getUnsigned_comma (target n : UInt64) (rest : Bytes) :
    IStream.getUnsigned target { rest := print 10 n.toNat ++ (0x2c :: rest) } =
      (n, { rest := 0x2c :: rest }) :=
  IStream.getUnsigned_print (List.forall_mem_nil _) target n
    fun c hc => (comma_ends rest c hc).1

theorem getChar_comma (target : UInt8) (rest : Bytes) :
    IStream.getChar target { rest := 0x2c :: rest } = (0x2c, { rest }) :=
  IStream.getChar_cons (List.forall_mem_nil _) target rfl rest

section Line

variable {metrics : SystemMetrics}

/-- The fields after a number that is read to its end. -/
theorem parseRecord_finite (hrange : InRange metrics)
    (hfinite : metrics.cpuUsagePercent.toRat?.isSome) :
    stored (parseRecord (lineText metrics)) = stored metrics := by
  obtain ⟨negative, q, hcpu⟩ :
      ∃ negative q, metrics.cpuUsagePercent = .finite negative q := by
    cases h : metrics.cpuUsagePercent with
    | nan negative => simp [h, Double.toRat?] at hfinite
    | inf negative => simp [h, Double.toRat?] at hfinite
    | finite negative q => exact ⟨negative, q, rfl⟩
  have hlast (target n : UInt64) :=
    IStream.getUnsigned_print (List.forall_mem_nil _) target n isDigit_head?_nil
  have hdouble (target : Double) (rest : Bytes) :=
    Double.getDouble_print (List.forall_mem_nil _) (comma_ends rest) target
      negative (hrange negative q hcpu)
  simp only [List.nil_append] at hlast hdouble
  simp only [stored, parseRecord, lineText, hcpu, getUnsigned_comma,
    getChar_comma, hdouble, hlast]

/-- After a failure the fields keep their defaults. -/
theorem parseRecord_word (hword : metrics.cpuUsagePercent.toRat? = none) :
    stored (parseRecord (lineText metrics)) = (metrics.timestamp, {}) := by
  have hfails (target : Double) (rest : Bytes) :=
    Double.getDouble_fails (List.forall_mem_nil _) target hword rest
  simp only [List.nil_append] at hfails
  simp only [stored, parseRecord, lineText, getUnsigned_comma, getChar_comma]
  simp only [IStream.getChar, IStream.getUnsigned, IStream.extract_of_fail,
    hfails]

theorem stored_parseRecord_iff (hrange : InRange metrics) :
    stored (parseRecord (lineText metrics)) = stored metrics ↔
      Legible metrics := by
  cases hcpu : metrics.cpuUsagePercent.toRat? with
  | some q =>
      have hfinite : metrics.cpuUsagePercent.toRat?.isSome := by rw [hcpu]; rfl
      exact iff_of_true (parseRecord_finite hrange hfinite) (.inl hfinite)
  | none =>
      rw [parseRecord_word hcpu, stored, Prod.mk.injEq, and_iff_right rfl,
        Legible, hcpu]
      simp [eq_comm]

theorem line_plain (metrics : SystemMetrics) : 0x0a ∉ lineText metrics := by
  have hprint (n : Nat) : (0x0a : UInt8) ∉ print 10 n :=
    fun h => absurd (isDigit_print n _ h) (by decide)
  have hcpu : (0x0a : UInt8) ∉ metrics.cpuUsagePercent.print :=
    fun h => absurd (Double.not_isSpace_print _ _ h) (by decide)
  have hcomma : (0x0a : UInt8) ≠ 0x2c := by decide
  simp only [lineText, List.mem_append, List.mem_cons, hprint, hcpu, hcomma,
    List.not_mem_nil, or_self, not_false_eq_true]

theorem lines_records (records : List SystemMetrics) :
    lines (records.flatMap line) = records.map lineText := by
  rw [← lines_flatMap line_plain, funext line_eq]

end Line

/-! What a call finds in the current file. -/

theorem lastOf_append {front records : List SystemMetrics} {n : Nat}
    (h : n ≤ records.length) :
    lastOf n (front ++ records) = lastOf n records := by
  rw [lastOf, lastOf, List.length_append, Nat.add_sub_assoc h,
    List.drop_append]
  simp

@[simp] theorem length_lastOf (n : Nat) (records : List SystemMetrics) :
    (lastOf n records).length = min n records.length := by
  rw [lastOf, List.length_drop]
  omega

namespace MetricsHistory

theorem tail_eq (n : UInt64) (history : MetricsHistory) :
    history.tail n =
      ((lines (history.content 0)).drop
        ((lines (history.content 0)).length - n.toNat)).map parseRecord := by
  unfold tail content Directory.content
  cases history.dir.lookup (history.logFile 0) with
  | none => simp [lines]
  | some file =>
      simp only [Option.getD_some]
      split
      · rfl
      · rename_i hfew
        rw [Nat.sub_eq_zero_of_le (Nat.le_of_not_lt hfew)]

theorem length_joined (n : Nat) (part : Nat → List SystemMetrics) :
    (Parts.joined n part).length =
      ((List.range n).map fun i => (part i).length).sum := by
  induction n with
  | zero => rfl
  | succ n ih =>
      rw [Parts.joined, List.length_append, ih, List.range_succ, List.map_append,
        List.sum_append, List.map_singleton, List.sum_singleton, Nat.add_comm]

/-- The current file holds the last of the records that are kept. -/
theorem Holds.exists_current {history : MetricsHistory}
    {records : List SystemMetrics} (h : history.Holds records) :
    ∃ older current, older ++ current <:+ records ∧
      lines (history.content 0) = current.map lineText ∧
      history.recordsIn 0 = current.length ∧
      history.kept = (older ++ current).length := by
  obtain ⟨part, hpart, hkept⟩ := h.kept
  obtain ⟨m, hm⟩ : ∃ m, history.maxFiles.toNat = m + 1 :=
    Nat.exists_eq_succ_of_ne_zero (Nat.ne_of_gt h.rotates.pos)
  have hlines : ∀ i < history.maxFiles.toNat,
      lines (history.content i) = (part i).map lineText := by
    intro i hi
    rw [hpart i hi, lines_records]
  have hcount : ∀ i < history.maxFiles.toNat,
      history.recordsIn i = (part i).length := by
    intro i hi
    rw [recordsIn, hlines i hi, List.length_map]
  refine ⟨Parts.joined m fun i => part (i + 1), part 0, ?_,
    hlines 0 h.rotates.pos, hcount 0 h.rotates.pos, ?_⟩
  · rwa [← Parts.joined_newest, ← hm]
  · rw [← Parts.joined_newest, ← hm, length_joined, MetricsHistory.kept]
    apply congrArg List.sum
    apply List.map_congr_left
    intro i hi
    exact hcount i (List.mem_range.mp hi)

/-- A call returns the end of the current file. -/
theorem stored_tail {history : MetricsHistory}
    {older current records : List SystemMetrics}
    (hsuffix : older ++ current <:+ records)
    (hlines : lines (history.content 0) = current.map lineText) (n : UInt64) :
    (history.tail n).map stored =
      (lastOf (min n.toNat current.length) records).map
        fun metrics => stored (parseRecord (lineText metrics)) := by
  obtain ⟨front, rfl⟩ := hsuffix
  have hlast : lastOf (min n.toNat current.length)
      (front ++ (older ++ current)) =
        current.drop (current.length - n.toNat) := by
    rw [← List.append_assoc, lastOf_append (Nat.min_le_right _ _), lastOf]
    congr 1
    omega
  rw [tail_eq, hlines, hlast, List.length_map, ← List.map_drop, List.map_map,
    List.map_map]
  rfl

/-- What a call returns are the last of the records exactly if the current file
holds as many as that, and their lines can be read. -/
theorem tail_isLast_iff (stateDir : Bytes) (maxFileSize : UInt64)
    {maxFiles : UInt64} (hlow : 2 ≤ maxFiles.toNat)
    (hhigh : maxFiles.toNat < 2 ^ 31) {records : List SystemMetrics}
    (hrange : ∀ metrics ∈ records, InRange metrics) (n : UInt64) :
    ((afterAppends stateDir maxFileSize maxFiles records).tail n).map stored =
        (lastOf (min n.toNat
          (afterAppends stateDir maxFileSize maxFiles records).kept)
          records).map stored ↔
      min n.toNat (afterAppends stateDir maxFileSize maxFiles records).kept ≤
          (afterAppends stateDir maxFileSize maxFiles records).recordsIn 0 ∧
        ∀ metrics ∈ lastOf (min n.toNat
            (afterAppends stateDir maxFileSize maxFiles records).kept) records,
          Legible metrics := by
  have hholds := afterAppends_holds stateDir maxFileSize hlow hhigh records
  generalize afterAppends stateDir maxFileSize maxFiles records = history
    at hholds ⊢
  obtain ⟨older, current, hsuffix, hlines, hcurrent, hkept⟩ :=
    hholds.exists_current
  have hlength := hsuffix.length_le
  rw [stored_tail hsuffix hlines, hcurrent, hkept]
  rw [List.length_append] at hlength ⊢
  have hread : ∀ k, ((lastOf k records).map fun metrics =>
      stored (parseRecord (lineText metrics))) = (lastOf k records).map stored ↔
        ∀ metrics ∈ lastOf k records, Legible metrics := by
    intro k
    rw [List.map_inj_left]
    refine forall₂_congr fun metrics hmem => ?_
    exact stored_parseRecord_iff (hrange metrics (List.mem_of_mem_drop hmem))
  constructor
  · intro hsame
    have hcount := congrArg List.length hsame
    simp only [List.length_map, length_lastOf] at hcount
    have hmin : min n.toNat current.length =
        min n.toNat (older.length + current.length) := by
      omega
    rw [hmin] at hsame
    exact ⟨by omega, (hread _).mp hsame⟩
  · intro h
    have hmin : min n.toNat current.length =
        min n.toNat (older.length + current.length) := by
      omega
    rw [hmin]
    exact (hread _).mpr h.2

theorem tail_isLast_iff_one :
    ((afterAppends [] 100 2 [{ timestamp := 7 }]).tail 1).map stored =
        (lastOf (min 1 (afterAppends [] 100 2 [{ timestamp := 7 }]).kept)
          [{ timestamp := 7 }]).map stored := by
  refine (tail_isLast_iff [] 100 (by decide) (by decide) ?_ 1).mpr
    ⟨by decide +kernel, ?_⟩
  · intro metrics hmem negative q hcpu
    obtain rfl := List.mem_singleton.mp hmem
    obtain ⟨_, rfl⟩ := Double.finite.inj hcpu
    exact pow_pos two_pos _
  · intro metrics hmem
    obtain rfl := List.mem_singleton.mp (List.mem_of_mem_drop hmem)
    exact .inr rfl

/-- The second record starts a new file, and the first is out of sight. -/
theorem tail_after_rotation :
    ¬∀ (stateDir : Bytes) (maxFileSize maxFiles : UInt64),
      2 ≤ maxFiles.toNat → maxFiles.toNat < 2 ^ 31 →
      ∀ (records : List SystemMetrics) (n : UInt64),
        ((afterAppends stateDir maxFileSize maxFiles records).tail n).map stored =
          (lastOf (min n.toNat
            (afterAppends stateDir maxFileSize maxFiles records).kept)
            records).map stored := by
  intro h
  have hlength := congrArg List.length (h [] 0 2 (by decide) (by decide)
    [{ timestamp := 1 }, { timestamp := 2 }] 2)
  revert hlength
  decide +kernel

end MetricsHistory

end HeidiKernel.Metrics
