import HeidiKernel.Data.Directory
import HeidiKernel.Data.Double
import HeidiKernel.Data.Output

namespace HeidiKernel.Metrics

open Data Numeric

/-! The history of the sampled metrics. It is a log in a few files, which are
renamed to make room for a new one. -/

structure MemStats where
  total : UInt64 := 0
  free : UInt64 := 0
  available : UInt64 := 0
  deriving DecidableEq, Repr

structure SystemMetrics where
  cpuUsagePercent : Double := .finite false 0
  mem : MemStats := {}
  timestamp : UInt64 := 0
  deriving DecidableEq

/-- The history with the state directory it writes to. No file operation
fails. -/
structure MetricsHistory where
  stateDir : Bytes
  maxFileSize : UInt64 := 1024 * 1024
  maxFiles : UInt64 := 5
  dir : Directory Bytes UInt8 := ∅

def line (metrics : SystemMetrics) : Bytes :=
  print 10 metrics.timestamp.toNat ++ bytes "," ++
    metrics.cpuUsagePercent.print ++ bytes "," ++
    print 10 metrics.mem.total.toNat ++ bytes "," ++
    print 10 metrics.mem.free.toNat ++ bytes "," ++
    print 10 metrics.mem.available.toNat ++ bytes "\n"

namespace MetricsHistory

def logFile (i : Nat) (history : MetricsHistory) : Bytes :=
  history.stateDir ++ bytes "/metrics.log" ++
    (if i = 0 then [] else bytes "." ++ print 10 i)

/-- One turn of the loop of `rotate_files`. -/
def shiftFile (i : Nat) (history : MetricsHistory) : MetricsHistory :=
  let source := history.logFile i
  let target := history.logFile (i + 1)
  if (history.dir.lookup source).isSome then
    { history with dir := history.dir.rename source target }
  else
    history

/-- The loop from one below the given index down to zero. -/
def shiftFiles : Nat → MetricsHistory → MetricsHistory
  | 0, history => history
  | i + 1, history => shiftFiles i (history.shiftFile i)

/-- The index of the loop is an `int`. -/
def rotateFiles (history : MetricsHistory) : MetricsHistory :=
  let oldest := history.logFile (history.maxFiles - 1).toNat
  let last := Int32.ofNat (history.maxFiles - 2).toNat
  { history with dir := history.dir.remove oldest }.shiftFiles
    (last.toInt + 1).toNat

/-- Writing the line at the end of the current file. -/
def record (metrics : SystemMetrics) (history : MetricsHistory) :
    MetricsHistory :=
  { history with
    dir := history.dir.write (history.logFile 0) (line metrics) }

def append (metrics : SystemMetrics) (history : MetricsHistory) :
    MetricsHistory :=
  let currentFile := history.logFile 0
  if (history.dir.lookup currentFile).isSome ∧
      history.maxFileSize.toNat < (history.dir.content currentFile).length then
    history.rotateFiles.record metrics
  else
    history.record metrics

/-- The history after a run of calls on an empty state directory. -/
def afterAppends (stateDir : Bytes) (maxFileSize maxFiles : UInt64)
    (records : List SystemMetrics) : MetricsHistory :=
  records.foldl (fun history metrics => history.append metrics)
    { stateDir, maxFileSize, maxFiles }

def content (history : MetricsHistory) (i : Nat) : Bytes :=
  history.dir.content (history.logFile i)

/-- All files one after the other, the oldest of them first. -/
def contents (history : MetricsHistory) : Bytes :=
  Parts.joined history.maxFiles.toNat history.content

end MetricsHistory

/-- The length of the longest line. -/
def longest (records : List SystemMetrics) : Nat :=
  records.foldr (fun metrics bound => max (line metrics).length bound) 0

namespace MetricsHistory

/-! The names of the files. -/

theorem logFile_injective (history : MetricsHistory) {i j : Nat}
    (h : history.logFile i = history.logFile j) : i = j := by
  have hsuffix := List.append_cancel_left h
  cases i with
  | zero =>
      cases j with
      | zero => rfl
      | succ j => simp [print_ne_nil] at hsuffix
  | succ i =>
      cases j with
      | zero => simp [print_ne_nil] at hsuffix
      | succ j =>
          apply print_injective (by decide : 1 < 10) (by decide)
          exact List.append_cancel_left hsuffix

theorem logFile_ne (history : MetricsHistory) {i j : Nat} (h : i ≠ j) :
    history.logFile i ≠ history.logFile j :=
  fun hsame => h (history.logFile_injective hsame)

/-! The rotation. Renaming a file that does not exist does nothing, so every
turn of the loop is a renaming. -/

theorem shiftFile_eq (i : Nat) (history : MetricsHistory) :
    history.shiftFile i =
      { history with
        dir := history.dir.rename (history.logFile i)
          (history.logFile (i + 1)) } := by
  simp only [shiftFile]
  cases hsource : history.dir.lookup (history.logFile i) with
  | none =>
      rw [Directory.rename_of_none _ hsource]
      rfl
  | some held => rfl

theorem shiftFiles_eq (n : Nat) (history : MetricsHistory) :
    history.shiftFiles n =
      { history with dir := (history.shiftFiles n).dir } := by
  induction n generalizing history with
  | zero => rfl
  | succ n ih =>
      rw [shiftFiles, ih, shiftFile_eq]

/-- The loop moves every file to the next name, when the last of these names is
free. -/
theorem lookup_shiftFiles (n : Nat) (history : MetricsHistory)
    (hfree : history.dir.lookup (history.logFile n) = none) :
    (history.shiftFiles n).dir.lookup (history.logFile 0) = none ∧
      (∀ i < n, (history.shiftFiles n).dir.lookup (history.logFile (i + 1)) =
        history.dir.lookup (history.logFile i)) ∧
      ∀ name, (∀ i ≤ n, name ≠ history.logFile i) →
        (history.shiftFiles n).dir.lookup name = history.dir.lookup name := by
  induction n generalizing history with
  | zero =>
      exact ⟨hfree, fun i hi => absurd hi (Nat.not_lt_zero i), fun _ _ => rfl⟩
  | succ n ih =>
      rw [shiftFiles, shiftFile_eq]
      have hgone := Directory.lookup_rename_source history.dir
        (history.logFile_ne (Nat.ne_of_lt (Nat.lt_succ_self n)))
      obtain ⟨hzero, hmoved, hothers⟩ := ih
        { history with
          dir := history.dir.rename (history.logFile n)
            (history.logFile (n + 1)) } hgone
      refine ⟨hzero, ?_, ?_⟩
      · intro i hi
        rcases Nat.lt_or_eq_of_le (Nat.le_of_lt_succ hi) with hlt | rfl
        · refine (hmoved i hlt).trans ?_
          exact Directory.lookup_rename_ne _
            (history.logFile_ne (by omega)) (history.logFile_ne (by omega))
        · have hlast := hothers (history.logFile (i + 1)) fun j hj =>
            history.logFile_ne (Nat.ne_of_gt (Nat.lt_succ_of_le hj))
          refine hlast.trans ?_
          rw [Directory.lookup_rename_target, hfree, Option.or_none]
      · intro name hname
        refine (hothers name fun j hj => hname j (by omega)).trans ?_
        exact Directory.lookup_rename_ne _ (hname n (by omega))
          (hname (n + 1) (by omega))

/-- What a rotation needs of the number of files: that there are two, and that
the index of the loop can count them. -/
def Rotates (history : MetricsHistory) : Prop :=
  2 ≤ history.maxFiles.toNat ∧ history.maxFiles.toNat < 2 ^ 31

theorem Rotates.pos {history : MetricsHistory} (h : history.Rotates) :
    0 < history.maxFiles.toNat :=
  Nat.lt_of_lt_of_le (by decide) h.1

theorem rotateFiles_eq {history : MetricsHistory} (h : history.Rotates) :
    history.rotateFiles =
      { history with
        dir := history.dir.remove
          (history.logFile (history.maxFiles.toNat - 1)) }.shiftFiles
        (history.maxFiles.toNat - 1) := by
  obtain ⟨hlow, hhigh⟩ := h
  have hone : (history.maxFiles - 1).toNat = history.maxFiles.toNat - 1 :=
    UInt64.toNat_sub_of_le _ _ (by rw [UInt64.le_iff_toNat_le]; exact Nat.le_of_succ_le hlow)
  have htwo : (history.maxFiles - 2).toNat = history.maxFiles.toNat - 2 :=
    UInt64.toNat_sub_of_le _ _ (by rw [UInt64.le_iff_toNat_le]; exact hlow)
  have hlast : (Int32.ofNat (history.maxFiles.toNat - 2)).toInt =
      (history.maxFiles.toNat - 2 : Nat) := by
    apply Int32.toInt_ofNat_of_lt
    omega
  have hturns : ((history.maxFiles.toNat - 2 : Nat) + 1 : Int).toNat =
      history.maxFiles.toNat - 1 := by
    omega
  rw [rotateFiles]
  simp only [hone, htwo, hlast, hturns]

theorem rotateFiles_same (history : MetricsHistory) :
    history.rotateFiles = { history with dir := history.rotateFiles.dir } :=
  shiftFiles_eq _ _

theorem logFile_rotateFiles (i : Nat) (history : MetricsHistory) :
    history.rotateFiles.logFile i = history.logFile i := by
  rw [rotateFiles_same]
  rfl

theorem maxFiles_rotateFiles (history : MetricsHistory) :
    history.rotateFiles.maxFiles = history.maxFiles := by
  rw [rotateFiles_same]

theorem maxFileSize_rotateFiles (history : MetricsHistory) :
    history.rotateFiles.maxFileSize = history.maxFileSize := by
  rw [rotateFiles_same]

theorem lookup_rotated {history : MetricsHistory} (h : history.Rotates) :
    history.rotateFiles.dir.lookup (history.logFile 0) = none ∧
      (∀ i < history.maxFiles.toNat - 1,
        history.rotateFiles.dir.lookup (history.logFile (i + 1)) =
          history.dir.lookup (history.logFile i)) ∧
      ∀ name, (∀ i < history.maxFiles.toNat, name ≠ history.logFile i) →
        history.rotateFiles.dir.lookup name = history.dir.lookup name := by
  have hlow := h.1
  obtain ⟨hzero, hmoved, hothers⟩ := lookup_shiftFiles
    (history.maxFiles.toNat - 1)
    { history with
      dir := history.dir.remove
        (history.logFile (history.maxFiles.toNat - 1)) }
    (Directory.lookup_remove_self _)
  rw [← rotateFiles_eq h] at hzero hmoved hothers
  refine ⟨hzero, ?_, ?_⟩
  · intro i hi
    refine (hmoved i hi).trans ?_
    exact Directory.lookup_remove_ne _ (history.logFile_ne (by omega))
  · intro name hname
    refine (hothers name fun i hi => hname i (by omega)).trans ?_
    exact Directory.lookup_remove_ne _ (hname _ (by omega))

/-- A rotation shifts the parts of the log, and gives up the oldest. -/
theorem content_rotateFiles {history : MetricsHistory} (h : history.Rotates)
    {i : Nat} (hi : i < history.maxFiles.toNat) :
    history.rotateFiles.content i = Parts.shifted [] history.content i := by
  obtain ⟨hzero, hmoved, _⟩ := lookup_rotated h
  rw [content, logFile_rotateFiles]
  cases i with
  | zero =>
      change (history.rotateFiles.dir.lookup (history.logFile 0)).getD [] = []
      exact congrArg (Option.getD · []) hzero
  | succ i =>
      exact Directory.content_of_lookup (hmoved i (by omega))

/-! What the files hold after a run of calls. -/

structure Holds (history : MetricsHistory) (records : List SystemMetrics) :
    Prop where
  rotates : history.Rotates
  names : ∀ name, (history.dir.lookup name).isSome →
    ∃ i < history.maxFiles.toNat, history.logFile i = name
  kept : ∃ part : Nat → List SystemMetrics,
    (∀ i < history.maxFiles.toNat,
      history.content i = (part i).flatMap line) ∧
    Parts.joined history.maxFiles.toNat part <:+ records
  small : ∀ i < history.maxFiles.toNat,
    (history.content i).length ≤ history.maxFileSize.toNat + longest records

theorem Holds.rotateFiles {history : MetricsHistory}
    {records : List SystemMetrics} (h : history.Holds records) :
    history.rotateFiles.Holds records where
  rotates := by
    rw [Rotates, maxFiles_rotateFiles]
    exact h.rotates
  names := by
    intro name hname
    simp only [maxFiles_rotateFiles, logFile_rotateFiles]
    refine by_contra fun hother => ?_
    have hne : ∀ i < history.maxFiles.toNat, name ≠ history.logFile i :=
      fun i hi hsame => hother ⟨i, hi, hsame.symm⟩
    rw [(lookup_rotated h.rotates).2.2 name hne] at hname
    exact hother (h.names name hname)
  kept := by
    obtain ⟨part, hpart, hkept⟩ := h.kept
    refine ⟨Parts.shifted [] part, ?_, ?_⟩
    · intro i hi
      rw [maxFiles_rotateFiles] at hi
      rw [content_rotateFiles h.rotates hi]
      cases i with
      | zero => rfl
      | succ i => exact hpart i (by omega)
    · rw [maxFiles_rotateFiles]
      exact Parts.joined_shifted_suffix.trans hkept
  small := by
    intro i hi
    rw [maxFiles_rotateFiles] at hi
    rw [content_rotateFiles h.rotates hi, maxFileSize_rotateFiles]
    cases i with
    | zero => exact Nat.zero_le _
    | succ i => exact h.small i (by omega)

theorem content_record_zero (metrics : SystemMetrics)
    (history : MetricsHistory) :
    (history.record metrics).content 0 = history.content 0 ++ line metrics := by
  change ((history.dir.write (history.logFile 0) (line metrics)).lookup
    (history.logFile 0)).getD [] = _
  rw [Directory.lookup_write_self]
  rfl

theorem content_record_succ (metrics : SystemMetrics)
    (history : MetricsHistory) (i : Nat) :
    (history.record metrics).content (i + 1) = history.content (i + 1) :=
  Directory.content_of_lookup
    (Directory.lookup_write_ne _ (history.logFile_ne (Nat.succ_ne_zero i)) _)

theorem longest_append (records : List SystemMetrics)
    (metrics : SystemMetrics) :
    longest (records ++ [metrics]) =
      max (longest records) (line metrics).length := by
  induction records with
  | nil => exact Nat.max_comm _ _
  | cons first records ih =>
      change max _ (longest (records ++ [metrics])) = max (max _ _) _
      rw [ih, Nat.max_assoc]
      rfl

/-- A call that finds the current file within its limit, or a new one. -/
theorem Holds.record {history : MetricsHistory} {records : List SystemMetrics}
    (h : history.Holds records)
    (hroom : (history.content 0).length ≤ history.maxFileSize.toNat)
    (metrics : SystemMetrics) :
    (history.record metrics).Holds (records ++ [metrics]) where
  rotates := h.rotates
  names := by
    intro name hname
    refine by_contra fun hother => ?_
    have hne : name ≠ history.logFile 0 :=
      fun hsame => hother ⟨0, h.rotates.pos, hsame.symm⟩
    have hkept := Directory.lookup_write_ne history.dir hne (line metrics)
    rw [MetricsHistory.record, hkept] at hname
    exact hother (h.names name hname)
  kept := by
    obtain ⟨part, hpart, hkept⟩ := h.kept
    refine ⟨Parts.shifted (part 0 ++ [metrics]) fun i => part (i + 1), ?_, ?_⟩
    · intro i hi
      cases i with
      | zero =>
          rw [content_record_zero, hpart 0 hi, Parts.shifted,
            List.flatMap_append, List.flatMap_singleton]
      | succ i =>
          rw [content_record_succ]
          exact hpart (i + 1) hi
    · obtain ⟨n, hn⟩ : ∃ n, history.maxFiles.toNat = n + 1 :=
        Nat.exists_eq_succ_of_ne_zero (Nat.ne_of_gt h.rotates.pos)
      change Parts.joined history.maxFiles.toNat _ <:+ _
      rw [hn] at hkept ⊢
      rw [Parts.joined_added]
      obtain ⟨front, hfront⟩ := hkept
      exact ⟨front, by rw [← List.append_assoc, hfront]⟩
  small := by
    intro i hi
    rw [longest_append]
    cases i with
    | zero =>
        rw [content_record_zero, List.length_append]
        change _ ≤ history.maxFileSize.toNat + _
        omega
    | succ i =>
        rw [content_record_succ]
        have := h.small (i + 1) hi
        change _ ≤ history.maxFileSize.toNat + _
        omega

theorem Holds.append {history : MetricsHistory} {records : List SystemMetrics}
    (h : history.Holds records) (metrics : SystemMetrics) :
    (history.append metrics).Holds (records ++ [metrics]) := by
  simp only [MetricsHistory.append]
  split
  · apply h.rotateFiles.record
    rw [content_rotateFiles h.rotates h.rotates.pos]
    exact Nat.zero_le _
  · rename_i hroom
    apply h.record
    rw [content, Directory.content]
    cases hfile : history.dir.lookup (history.logFile 0) with
    | none => exact Nat.zero_le _
    | some held =>
        rw [hfile, Directory.content, hfile] at hroom
        exact Nat.le_of_not_lt fun hlarge => hroom ⟨rfl, hlarge⟩

theorem created_holds (stateDir : Bytes) (maxFileSize : UInt64)
    {maxFiles : UInt64} (hlow : 2 ≤ maxFiles.toNat)
    (hhigh : maxFiles.toNat < 2 ^ 31) :
    (afterAppends stateDir maxFileSize maxFiles []).Holds [] where
  rotates := ⟨hlow, hhigh⟩
  names := by
    intro name hname
    contradiction
  kept := by
    refine ⟨fun _ => [], fun i _ => rfl, ?_⟩
    generalize (afterAppends stateDir maxFileSize maxFiles []).maxFiles.toNat = n
    induction n with
    | zero => exact List.suffix_rfl
    | succ n ih => exact ih
  small := fun i _ => Nat.zero_le _

theorem afterAppends_append (stateDir : Bytes) (maxFileSize maxFiles : UInt64)
    (records : List SystemMetrics) (metrics : SystemMetrics) :
    afterAppends stateDir maxFileSize maxFiles (records ++ [metrics]) =
      (afterAppends stateDir maxFileSize maxFiles records).append metrics := by
  rw [afterAppends, List.foldl_append]
  rfl

theorem afterAppends_holds (stateDir : Bytes) (maxFileSize : UInt64)
    {maxFiles : UInt64} (hlow : 2 ≤ maxFiles.toNat) (hhigh : maxFiles.toNat < 2 ^ 31)
    (records : List SystemMetrics) :
    (afterAppends stateDir maxFileSize maxFiles records).Holds records := by
  induction records using List.reverseRecOn with
  | nil => exact created_holds stateDir maxFileSize hlow hhigh
  | append_singleton records metrics ih =>
      rw [afterAppends_append]
      exact ih.append metrics

@[simp] theorem config_append (metrics : SystemMetrics)
    (history : MetricsHistory) :
    (history.append metrics).maxFileSize = history.maxFileSize ∧
      (history.append metrics).maxFiles = history.maxFiles := by
  simp only [append]
  split
  · exact ⟨maxFileSize_rotateFiles history, maxFiles_rotateFiles history⟩
  · exact ⟨rfl, rfl⟩

theorem config_afterAppends (stateDir : Bytes) (maxFileSize maxFiles : UInt64)
    (records : List SystemMetrics) :
    (afterAppends stateDir maxFileSize maxFiles records).maxFileSize =
        maxFileSize ∧
      (afterAppends stateDir maxFileSize maxFiles records).maxFiles =
        maxFiles := by
  induction records using List.reverseRecOn with
  | nil => exact ⟨rfl, rfl⟩
  | append_singleton records metrics ih =>
      rw [afterAppends_append, (config_append _ _).1, (config_append _ _).2]
      exact ih

theorem contents_record {history : MetricsHistory} (h : history.Rotates)
    (metrics : SystemMetrics) :
    (history.record metrics).contents = history.contents ++ line metrics := by
  obtain ⟨n, hn⟩ : ∃ n, history.maxFiles.toNat = n + 1 :=
    Nat.exists_eq_succ_of_ne_zero (Nat.ne_of_gt h.pos)
  change Parts.joined history.maxFiles.toNat _ =
    Parts.joined history.maxFiles.toNat _ ++ _
  rw [hn, Parts.joined_newest, Parts.joined_newest, content_record_zero,
    List.append_assoc,
    Parts.joined_congr fun i _ => content_record_succ metrics history i]

theorem contents_rotateFiles {history : MetricsHistory} (h : history.Rotates) :
    history.content (history.maxFiles.toNat - 1) ++
      history.rotateFiles.contents = history.contents := by
  obtain ⟨n, hn⟩ : ∃ n, history.maxFiles.toNat = n + 1 :=
    Nat.exists_eq_succ_of_ne_zero (Nat.ne_of_gt h.pos)
  have hshift : history.rotateFiles.contents =
      Parts.joined (n + 1) (Parts.shifted [] history.content) := by
    rw [contents, maxFiles_rotateFiles, hn]
    apply Parts.joined_congr
    intro i hi
    exact content_rotateFiles h (by omega)
  rw [hshift, Parts.joined_shifted, List.append_nil, contents, hn,
    Nat.add_sub_cancel, Parts.joined]

/-- A call gives up the oldest file, or nothing. -/
theorem contents_append {history : MetricsHistory} (h : history.Rotates)
    (metrics : SystemMetrics) :
    ∃ removed rest, removed <+: history.content (history.maxFiles.toNat - 1) ∧
      history.contents = removed ++ rest ∧
      (history.append metrics).contents = rest ++ line metrics := by
  simp only [append]
  split
  · have hrotates : history.rotateFiles.Rotates := by
      rw [Rotates, maxFiles_rotateFiles]
      exact h
    exact ⟨_, _, List.prefix_rfl, (contents_rotateFiles h).symm,
      contents_record hrotates metrics⟩
  · exact ⟨[], _, List.nil_prefix, rfl, contents_record h metrics⟩

/-! The files a history may hold are few and small. -/

theorem Holds.length_keys_le {history : MetricsHistory}
    {records : List SystemMetrics} (h : history.Holds records) :
    history.dir.keys.length ≤ history.maxFiles.toNat := by
  have hnames := Directory.length_keys_le history.dir
    ((List.range history.maxFiles.toNat).map history.logFile)
  rw [List.length_map, List.length_range] at hnames
  apply hnames
  intro name hname
  obtain ⟨i, hi, hfile⟩ := h.names name hname
  exact List.mem_map.mpr ⟨i, List.mem_range.mpr hi, hfile⟩

theorem Holds.length_file_le {history : MetricsHistory}
    {records : List SystemMetrics} (h : history.Holds records) {name held : Bytes}
    (hfile : history.dir.lookup name = some held) :
    held.length ≤ history.maxFileSize.toNat + longest records := by
  obtain ⟨i, hi, rfl⟩ := h.names name (by rw [hfile]; rfl)
  have hsmall := h.small i hi
  rwa [content, Directory.content, hfile] at hsmall

theorem Holds.contents_eq {history : MetricsHistory}
    {records : List SystemMetrics} (h : history.Holds records) :
    ∃ k, history.contents = (records.drop k).flatMap line := by
  obtain ⟨part, hpart, hkept⟩ := h.kept
  refine ⟨records.length -
    (Parts.joined history.maxFiles.toNat part).length, ?_⟩
  rw [← List.suffix_iff_eq_drop.mp hkept, Parts.flatMap_joined]
  exact Parts.joined_congr hpart

/-- After each call the files are few and small and hold the last records, and
a call gives up the oldest file at most. -/
theorem history_boundedSuffix (stateDir : Bytes) {maxFileSize maxFiles : UInt64}
    (hlow : 2 ≤ maxFiles.toNat) (hhigh : maxFiles.toNat < 2 ^ 31)
    (records : List SystemMetrics) (metrics : SystemMetrics) :
    (afterAppends stateDir maxFileSize maxFiles
        (records ++ [metrics])).dir.keys.length ≤ maxFiles.toNat ∧
      (∀ name held,
        (afterAppends stateDir maxFileSize maxFiles
          (records ++ [metrics])).dir.lookup name = some held →
        held.length ≤ maxFileSize.toNat + longest (records ++ [metrics])) ∧
      (∃ k, (afterAppends stateDir maxFileSize maxFiles
          (records ++ [metrics])).contents =
        ((records ++ [metrics]).drop k).flatMap line) ∧
      ∃ removed rest,
        removed <+: (afterAppends stateDir maxFileSize maxFiles
          records).content (maxFiles.toNat - 1) ∧
        (afterAppends stateDir maxFileSize maxFiles records).contents =
          removed ++ rest ∧
        (afterAppends stateDir maxFileSize maxFiles
          (records ++ [metrics])).contents = rest ++ line metrics := by
  obtain ⟨hsize, hfiles⟩ := config_afterAppends stateDir maxFileSize maxFiles
    (records ++ [metrics])
  have hbefore := afterAppends_holds stateDir maxFileSize hlow hhigh records
  have hafter := afterAppends_holds stateDir maxFileSize hlow hhigh
    (records ++ [metrics])
  refine ⟨?_, ?_, hafter.contents_eq, ?_⟩
  · have hcount := hafter.length_keys_le
    rwa [hfiles] at hcount
  · intro name held hfile
    have hlength := hafter.length_file_le hfile
    rwa [hsize] at hlength
  · have hremoved := contents_append hbefore.rotates metrics
    rw [(config_afterAppends stateDir maxFileSize maxFiles records).2] at hremoved
    rw [afterAppends_append]
    exact hremoved

theorem history_boundedSuffix_two :
    (afterAppends [] 0 2 [{ timestamp := 1 }, { timestamp := 2 },
      { timestamp := 3 }]).dir.keys.length ≤ 2 :=
  (history_boundedSuffix [] (by decide) (by decide)
    [{ timestamp := 1 }, { timestamp := 2 }] { timestamp := 3 }).1

end MetricsHistory

end HeidiKernel.Metrics
