import HeidiKernel.Data.Scanf
import HeidiKernel.Job.Actions
import HeidiKernel.Job.StartTime

namespace HeidiKernel

open Data Numeric

/-! Counting the processes of a group in `/proc`. -/

/-- An entry of the directory, with what its stat file holds when its turn
comes, if it can be opened. -/
structure DirEntry where
  isDir : Bool
  name : Bytes
  stat : Option Bytes
  deriving DecidableEq, Repr

def maxScans : Nat := 5000

/-- The bytes of a line that fit into the buffer, besides the NUL. -/
def statLineSize : Nat := 4095

namespace DirEntry

/-- The pid the name is taken for. It is cut to an `int`. -/
def pid? (entry : DirEntry) : Option Int32 :=
  if !entry.isDir then
    none
  else
    let (value, endptr) := strtol (CString.text entry.name)
    let pid := Int32.ofInt value
    if endptr ≠ [] ∨ pid ≤ 0 then none else some pid

end DirEntry

/-- `sscanf(text, " %*c %d %d", &ppid, &pgrp)` -/
def scanPgrp (text : Bytes) : Option Int32 := do
  let rest ← scanChar (text.dropWhile isSpace)
  let (_, rest) ← scanInt (rest.dropWhile isSpace)
  let (pgrp, _) ← scanInt (rest.dropWhile isSpace)
  pure pgrp

/-- The group a stat file names, if it can be made out. -/
def pgrpOf (file : Bytes) : Option Int32 :=
  let buf := fgets statLineSize file
  if buf = [] then
    none
  else
    match strrchr 0x29 (CString.text buf) with
    | none => none
    | some p => scanPgrp p.tail

namespace ProcfsProcessInspector

/-- The loop over the entries. What cannot be made out is passed over. -/
def countFrom (pgid : Int32) : List DirEntry → Nat → Nat → Nat
  | [], _, count => count
  | entry :: rest, scanned, count =>
      if scanned < maxScans then
        match entry.pid? with
        | none => countFrom pgid rest scanned count
        | some _ =>
            countFrom pgid rest (scanned + 1)
              (if entry.stat.bind pgrpOf = some pgid then count + 1 else count)
      else
        count

/-- No listing stands for a directory that cannot be opened. -/
def countProcessesInPgid (pgid : Int32) (procDir : Option (List DirEntry)) :
    Int :=
  match procDir with
  | none => -1
  | some listing => countFrom pgid listing 0 0

end ProcfsProcessInspector

/-! The lines that name a group: behind the last parenthesis there are a state,
the parent and the group. -/

def GroupFields (text : Bytes) (pgrp : Int32) : Prop :=
  ∃ blanks state parent group rest ppid n,
    (∀ c ∈ blanks, isSpace c = true) ∧ isSpace state = false ∧
    text = blanks ++ state :: parent ∧ StartsWith parent ppid group ∧
    StartsWith group n rest ∧ asInt n = pgrp

/-- The first line of a file, as far as a C string in the buffer shows it. -/
def statLineOf (file : Bytes) : Bytes :=
  CString.text (fgets statLineSize file)

def GroupLine (file : Bytes) (pgrp : Int32) : Prop :=
  ∃ front back, statLineOf file = front ++ 0x29 :: back ∧ 0x29 ∉ back ∧
    GroupFields back pgrp

theorem scanPgrp_eq_some_iff {text : Bytes} {pgrp : Int32} :
    scanPgrp text = some pgrp ↔ GroupFields text pgrp := by
  simp only [scanPgrp, scanInt_dropWhile, Option.bind_eq_bind,
    Option.bind_eq_some_iff, scanChar_dropWhile, Option.pure_def,
    Option.some.injEq]
  constructor
  · intro h
    obtain ⟨parent, ⟨blanks, state, hblanks, hstate, rfl⟩, ⟨ppid, group⟩,
      hparent, ⟨value, rest⟩, hgroup, rfl⟩ := h
    obtain ⟨m, hparent, _⟩ := scanInt_eq_some_iff.mp hparent
    obtain ⟨n, hgroup, hn⟩ := scanInt_eq_some_iff.mp hgroup
    exact ⟨blanks, state, parent, group, rest, m, n, hblanks, hstate, rfl,
      hparent, hgroup, hn⟩
  · intro h
    obtain ⟨blanks, state, parent, group, rest, m, n, hblanks, hstate, rfl,
      hparent, hgroup, hn⟩ := h
    exact ⟨parent, ⟨blanks, state, hblanks, hstate, rfl⟩, (asInt m, group),
      scanInt_eq_some_iff.mpr ⟨m, hparent, rfl⟩, (pgrp, rest),
      scanInt_eq_some_iff.mpr ⟨n, hgroup, hn⟩, rfl⟩

theorem not_mem_of_strrchr {c : UInt8} {text : Bytes}
    (h : strrchr c text = none) : c ∉ text := by
  induction text with
  | nil => exact List.not_mem_nil
  | cons x text ih =>
      rw [strrchr] at h
      cases hrest : strrchr c text with
      | some found =>
          rw [hrest] at h
          cases h
      | none =>
          rw [hrest] at h
          simp only [ite_eq_right_iff, reduceCtorEq, imp_false] at h
          rw [List.mem_cons, not_or]
          exact ⟨Ne.symm h, ih hrest⟩

theorem strrchr_eq_some_iff {c : UInt8} {text found : Bytes} :
    strrchr c text = some found ↔
      ∃ front back, text = front ++ c :: back ∧ c ∉ back ∧
        found = c :: back := by
  constructor
  · intro h
    induction text generalizing found with
    | nil => cases h
    | cons x text ih =>
        rw [strrchr] at h
        cases hrest : strrchr c text with
        | some later =>
            rw [hrest] at h
            obtain rfl := Option.some.inj h
            obtain ⟨front, back, rfl, hback, hfound⟩ := ih hrest
            exact ⟨x :: front, back, rfl, hback, hfound⟩
        | none =>
            rw [hrest] at h
            simp only at h
            split at h
            · rename_i hx
              obtain rfl := Option.some.inj h
              exact ⟨[], text, by rw [hx]; rfl, not_mem_of_strrchr hrest,
                by rw [hx]⟩
            · cases h
  · intro h
    obtain ⟨front, back, rfl, hback, rfl⟩ := h
    exact StartTime.strrchr_append front hback

/-- A file names a group exactly if the parser makes that group out. -/
theorem pgrpOf_eq_some_iff {file : Bytes} {pgrp : Int32} :
    pgrpOf file = some pgrp ↔ GroupLine file pgrp := by
  have hfound : pgrpOf file = some pgrp ↔
      ∃ p, strrchr 0x29 (statLineOf file) = some p ∧
        scanPgrp p.tail = some pgrp := by
    unfold pgrpOf statLineOf
    simp only
    split
    · rename_i hempty
      rw [hempty]
      refine iff_of_false (by simp) ?_
      intro h
      obtain ⟨p, hp, _⟩ := h
      cases hp
    · cases strrchr 0x29 (CString.text (fgets statLineSize file)) with
      | none => simp
      | some p => simp
  rw [hfound, GroupLine]
  constructor
  · intro h
    obtain ⟨p, hp, hscan⟩ := h
    obtain ⟨front, back, hline, hback, rfl⟩ := strrchr_eq_some_iff.mp hp
    exact ⟨front, back, hline, hback, scanPgrp_eq_some_iff.mp hscan⟩
  · intro h
    obtain ⟨front, back, hline, hback, hfields⟩ := h
    exact ⟨0x29 :: back,
      strrchr_eq_some_iff.mpr ⟨front, back, hline, hback, rfl⟩,
      scanPgrp_eq_some_iff.mpr hfields⟩

/-! The records of `proc(5)`: the pid, the name in parentheses, and the fields,
of which the state, the parent and the group are the first. The name may have any
bytes but NUL. -/

section StatRecord

open StartTime

structure StatRecord (pgrp : Int32) (file : Bytes) : Prop where
  exists_fields : ∃ (pid : Nat) (comm fields : Bytes) (state : UInt8)
    (parent group : Bytes) (tokens : List Bytes) (ppid : Int32),
    0 < pid ∧ pid < 2 ^ 31 ∧ (∀ c ∈ comm, c ≠ 0) ∧
      Fields ([state] :: parent :: group :: tokens) fields ∧
      Literal parent ppid.toInt ∧ Literal group pgrp.toInt ∧
      file = statLine (print 10 pid) comm fields

/-- The file is one line, which fits into the buffer. -/
structure OneLine (file : Bytes) : Prop where
  newline : 0x0a ∉ file.dropLast
  length : file.length ≤ statLineSize

theorem startsWith_token {blanks token rest : Bytes} {n : Int}
    (hblanks : ∀ c ∈ blanks, isSpace c = true) (htoken : Literal token n)
    (hrest : Separates rest) :
    StartsWith (blanks ++ token ++ rest) n rest :=
  ⟨blanks, token, hblanks, htoken,
    fun d hd => not_isDigit_of_isSpace (hrest d hd), by simp⟩

theorem fields_startsWith {state : UInt8} {parent group fields : Bytes}
    {tokens : List Bytes} {ppid n : Int}
    (h : Fields ([state] :: parent :: group :: tokens) fields)
    (hparent : Literal parent ppid) (hgroup : Literal group n) :
    ∃ blanks fromParent fromGroup rest, (∀ c ∈ blanks, isSpace c = true) ∧
      isSpace state = false ∧ fields = blanks ++ state :: fromParent ∧
      StartsWith fromParent ppid fromGroup ∧ StartsWith fromGroup n rest := by
  cases h with
  | @token blanks _ afterState _ hblanks hstate _ h =>
    cases h with
    | @token blanks' _ afterParent _ hblanks' _ hafterParent h =>
      cases h with
      | @token blanks'' _ afterGroup _ hblanks'' _ hafterGroup h =>
          exact ⟨blanks, _, _, _, hblanks,
            (hstate.plain state List.mem_cons_self).1, by simp,
            startsWith_token hblanks' hparent hafterParent,
            startsWith_token hblanks'' hgroup hafterGroup⟩

theorem groupFields_of_fields {state : UInt8} {parent group fields : Bytes}
    {tokens : List Bytes} {ppid : Int} {pgrp : Int32}
    (h : Fields ([state] :: parent :: group :: tokens) fields)
    (hparent : Literal parent ppid) (hgroup : Literal group pgrp.toInt) :
    GroupFields fields pgrp := by
  obtain ⟨blanks, fromParent, fromGroup, rest, hblanks, hstate, rfl, hppid,
    hpgrp⟩ := fields_startsWith h hparent hgroup
  refine ⟨blanks, state, fromParent, fromGroup, rest, ppid, pgrp.toInt,
    hblanks, hstate, rfl, hppid, hpgrp, ?_⟩
  apply Int32.toInt_inj.mp
  exact asInt_of_range (Int32.le_toInt pgrp) (Int32.toInt_lt pgrp)

theorem plain_print (n : Nat) :
    ∀ c ∈ print 10 n, isSpace c = false ∧ c ≠ 0 ∧ c ≠ 0x29 := by
  intro c hc
  have hdigit := isDigit_print n c hc
  exact ⟨not_isSpace_of_isDigit hdigit, ne_of_isDigit hdigit rfl,
    ne_of_isDigit hdigit rfl⟩

/-- Nothing of one line that fits is lost. -/
theorem statLineOf_oneLine {file : Bytes} (h : OneLine file)
    (hnul : ∀ c ∈ file, c ≠ 0) : statLineOf file = file := by
  rw [statLineOf, fgets_eq_self h.newline h.length]
  exact List.takeWhile_eq_self_iff.mpr (by simpa using hnul)

/-- A record of one line that fits is understood, whatever else the name
holds. -/
theorem StatRecord.groupLine {pgrp : Int32} {file : Bytes}
    (h : StatRecord pgrp file) (hline : OneLine file) : GroupLine file pgrp := by
  obtain ⟨pid, comm, fields, state, parent, group, tokens, ppid, -, -, hcomm,
    hfields, hparent, hgroup, rfl⟩ := h.exists_fields
  have hplain := hfields.plain
  have hnul : ∀ c ∈ statLine (print 10 pid) comm fields, c ≠ 0 :=
    forall_mem_statLine (by decide) (by decide) (by decide)
      (fun c hc => (plain_print pid c hc).2.1) hcomm
      (fun c hc => (hplain c hc).1)
  refine ⟨print 10 pid ++ [0x20, 0x28] ++ comm, fields, ?_, ?_,
    groupFields_of_fields hfields hparent hgroup⟩
  · rw [statLineOf_oneLine hline hnul, statLine_eq]
  · exact fun hmem => (hplain _ hmem).2 rfl

theorem StatRecord.exists_digit {pgrp : Int32} {file : Bytes}
    (h : StatRecord pgrp file) : ∃ c ∈ file.head?, isDigit c = true := by
  obtain ⟨pid, comm, fields, _, _, _, _, _, -, -, -, -, -, -, rfl⟩ :=
    h.exists_fields
  have hdigits := isDigit_print pid
  rw [statLine_eq]
  cases hpid : print 10 pid with
  | nil => exact absurd hpid (print_ne_nil 10 pid)
  | cons c digits =>
      rw [hpid] at hdigits
      exact ⟨c, rfl, hdigits c List.mem_cons_self⟩

/-- The group behind the last parenthesis, however large the number is. -/
def groupNumber (file : Bytes) : Option Int := do
  let p ← strrchr 0x29 file
  let parent ← scanChar (p.tail.dropWhile isSpace)
  let (_, group) ← readInteger? parent
  let (n, _) ← readInteger? group
  pure n

theorem StatRecord.groupNumber_eq {pgrp : Int32} {file : Bytes}
    (h : StatRecord pgrp file) : groupNumber file = some pgrp.toInt := by
  obtain ⟨pid, comm, fields, state, parent, group, tokens, ppid, -, -, -,
    hfields, hparent, hgroup, rfl⟩ := h.exists_fields
  obtain ⟨blanks, fromParent, fromGroup, rest, hblanks, hstate, htext, hppid,
    hpgrp⟩ := fields_startsWith hfields hparent hgroup
  have hlast : strrchr 0x29 (statLine (print 10 pid) comm fields) =
      some (0x29 :: fields) := by
    rw [statLine_eq]
    exact strrchr_append _ fun hmem => (hfields.plain _ hmem).2 rfl
  have hscan : scanChar (fields.dropWhile isSpace) = some fromParent :=
    scanChar_dropWhile.mpr ⟨blanks, state, hblanks, hstate, htext⟩
  simp [groupNumber, hlast, hscan, readInteger?_eq_some_iff.mpr hppid,
    readInteger?_eq_some_iff.mpr hpgrp]

theorem GroupLine.unique {file : Bytes} {pgrp pgrp' : Int32}
    (h : GroupLine file pgrp) (h' : GroupLine file pgrp') : pgrp = pgrp' := by
  rw [← pgrpOf_eq_some_iff] at h h'
  exact Option.some.inj (h.symm.trans h')

end StatRecord

theorem startsWith_print (n : Nat) : StartsWith (print 10 n) n [] := by
  refine ⟨[], print 10 n, List.forall_mem_nil _, Literal.print n, ?_, by simp⟩
  intro c hc
  cases hc

namespace DirEntry

/-- A directory whose name is a positive integer is one of a process. -/
theorem pid?_eq_some_iff {entry : DirEntry} {pid : Int32} :
    entry.pid? = some pid ↔
      entry.isDir = true ∧ 0 < pid ∧
        ∃ n, StartsWith (CString.text entry.name) n [] ∧ asInt n = pid := by
  unfold pid? strtol
  cases entry.isDir with
  | false => simp
  | true =>
      simp only [Bool.not_true, Bool.false_eq_true, if_false, true_and]
      cases hread : readInteger? (CString.text entry.name) with
      | none =>
          refine iff_of_false (by simp) ?_
          intro h
          obtain ⟨_, n, hstarts, _⟩ := h
          rw [readInteger?_eq_some_iff.mpr hstarts] at hread
          cases hread
      | some parts =>
          obtain ⟨n, rest⟩ := parts
          have hunique : ∀ m, StartsWith (CString.text entry.name) m [] ↔
              n = m ∧ rest = [] := by
            intro m
            rw [← readInteger?_eq_some_iff, hread, Option.some.injEq,
              Prod.mk.injEq]
          simp only [hunique]
          change (if rest ≠ [] ∨ asInt n ≤ 0 then none else some (asInt n)) =
            some pid ↔ _
          by_cases hbad : rest ≠ [] ∨ asInt n ≤ 0
          · rw [if_pos hbad]
            refine iff_of_false (by simp) ?_
            intro h
            obtain ⟨hpos, m, ⟨rfl, hrest⟩, rfl⟩ := h
            rcases hbad with hne | hle
            · exact hne hrest
            · exact absurd hpos (Int32.not_lt.mpr hle)
          · rw [not_or, not_not, Int32.not_le] at hbad
            rw [if_neg (by rw [not_or, not_not, Int32.not_le]; exact hbad),
              Option.some.injEq]
            constructor
            · intro h
              obtain rfl := h
              exact ⟨hbad.2, n, ⟨rfl, hbad.1⟩, rfl⟩
            · intro h
              obtain ⟨_, m, ⟨rfl, _⟩, hm⟩ := h
              exact hm

/-- The stat file can be read and names the group. -/
def InGroup (pgid : Int32) (entry : DirEntry) : Prop :=
  ∃ file, entry.stat = some file ∧ GroupLine file pgid

theorem bind_pgrpOf_eq_some_iff {entry : DirEntry} {pgid : Int32} :
    entry.stat.bind pgrpOf = some pgid ↔ entry.InGroup pgid := by
  simp only [Option.bind_eq_some_iff, pgrpOf_eq_some_iff]
  rfl

instance (pgid : Int32) (entry : DirEntry) : Decidable (entry.InGroup pgid) :=
  decidable_of_iff _ bind_pgrpOf_eq_some_iff

/-- The directory is named by a pid, and its stat file can be read and holds a
record of the group. -/
structure Member (pgid : Int32) (entry : DirEntry) : Prop where
  isDir : entry.isDir = true
  exists_pid : ∃ pid : Nat, 0 < pid ∧ pid < 2 ^ 31 ∧ entry.name = print 10 pid
  exists_record : ∃ file, entry.stat = some file ∧ StatRecord pgid file

theorem isSome_pid?_of_name {entry : DirEntry} (hdir : entry.isDir = true)
    {pid : Nat} (hpos : 0 < pid) (hsmall : pid < 2 ^ 31)
    (hname : entry.name = print 10 pid) : entry.pid?.isSome := by
  have htext : CString.text entry.name = print 10 pid := by
    rw [hname]
    exact List.takeWhile_eq_self_iff.mpr fun c hc => by
      simpa using (plain_print pid c hc).2.1
  have hpid : (asInt pid).toInt = pid :=
    asInt_of_range (by omega) (by omega)
  have hpositive : 0 < asInt pid := by
    rw [Int32.lt_iff_toInt_lt, hpid]
    exact Int.natCast_pos.mpr hpos
  refine Option.isSome_iff_exists.mpr ⟨asInt pid, ?_⟩
  refine pid?_eq_some_iff.mpr ⟨hdir, hpositive, pid, ?_, rfl⟩
  rw [htext]
  exact startsWith_print pid

theorem Member.isSome_pid? {entry : DirEntry} {pgid : Int32}
    (h : entry.Member pgid) : entry.pid?.isSome := by
  obtain ⟨pid, hpos, hsmall, hname⟩ := h.exists_pid
  exact isSome_pid?_of_name h.isDir hpos hsmall hname

/-- A process whose stat file cannot be read, or holds a record in one line that
fits. -/
structure Regular (entry : DirEntry) : Prop where
  isDir : entry.isDir = true
  exists_pid : ∃ pid : Nat, 0 < pid ∧ pid < 2 ^ 31 ∧ entry.name = print 10 pid
  record : ∀ file, entry.stat = some file →
    OneLine file ∧ ∃ pgrp, StatRecord pgrp file

/-- What is read of a regular process is what it holds. -/
theorem Regular.inGroup_iff_member {entry : DirEntry} (h : entry.Regular)
    (pgid : Int32) : entry.InGroup pgid ↔ entry.Member pgid := by
  constructor
  · intro hgroup
    obtain ⟨file, hfile, hnames⟩ := hgroup
    obtain ⟨hline, pgrp, hrecord⟩ := h.record file hfile
    obtain rfl := hnames.unique (hrecord.groupLine hline)
    exact ⟨h.isDir, h.exists_pid, file, hfile, hrecord⟩
  · intro hmember
    obtain ⟨file, hfile, hrecord⟩ := hmember.exists_record
    exact ⟨file, hfile, hrecord.groupLine (h.record file hfile).1⟩

end DirEntry

namespace ProcfsProcessInspector

/-- The entries of processes, in the order of the listing. -/
def processes (listing : List DirEntry) : List DirEntry :=
  listing.filter (·.pid?.isSome)

/-- The loop counts among as many processes as it may still scan. -/
theorem countFrom_eq (pgid : Int32) (listing : List DirEntry)
    (scanned count : Nat) :
    countFrom pgid listing scanned count =
      count + ((processes listing).take (maxScans - scanned)).countP
        (·.InGroup pgid) := by
  induction listing generalizing scanned count with
  | nil => simp [countFrom, processes]
  | cons entry rest ih =>
      rw [countFrom]
      by_cases hcap : scanned < maxScans
      · rw [if_pos hcap]
        cases hpid : entry.pid? with
        | none =>
            have hsame : processes (entry :: rest) = processes rest := by
              simp [processes, hpid]
            simp only [hsame]
            exact ih scanned count
        | some pid =>
            have hnext : processes (entry :: rest) = entry :: processes rest := by
              simp [processes, hpid]
            have hleft : maxScans - scanned = maxScans - (scanned + 1) + 1 := by
              omega
            simp only [hnext, ih]
            rw [hleft, List.take_succ_cons, List.countP_cons]
            simp only [DirEntry.bind_pgrpOf_eq_some_iff, decide_eq_true_eq]
            split <;> omega
      · rw [if_neg hcap, Nat.sub_eq_zero_of_le (Nat.le_of_not_lt hcap)]
        simp

/-- Two properties count the same but for those that have one of them only. -/
theorem countP_add_countP {α : Type*} (p q : α → Prop)
    [DecidablePred p] [DecidablePred q] (xs : List α) :
    xs.countP p + xs.countP (fun x => q x ∧ ¬p x) =
      xs.countP q + xs.countP fun x => p x ∧ ¬q x := by
  induction xs with
  | nil => rfl
  | cons x xs ih =>
      simp only [List.countP_cons, decide_eq_true_eq]
      by_cases hp : p x <;> by_cases hq : q x <;> simp only [hp, hq, not_true,
        not_false_iff, and_true, and_false, if_true, if_false] <;> omega

section Exact

open Classical

/-- The listed processes of the group. -/
noncomputable def members (pgid : Int32) (listing : List DirEntry) : Nat :=
  listing.countP (·.Member pgid)

/-- The answer is a negative number, or the number of listed processes of the
group. -/
def Exact (pgid : Int32) (procDir : Option (List DirEntry)) : Prop :=
  countProcessesInPgid pgid procDir < 0 ∨
    ∃ listing, procDir = some listing ∧
      countProcessesInPgid pgid procDir = (members pgid listing : Nat)

/-- What is taken for a process of the group among those that are scanned. -/
noncomputable def misread (pgid : Int32) (listing : List DirEntry) : Nat :=
  ((processes listing).take maxScans).countP fun entry =>
    entry.InGroup pgid ∧ ¬entry.Member pgid

/-- The processes of the group that are scanned and not taken for one, and those
that are not scanned. -/
noncomputable def missed (pgid : Int32) (listing : List DirEntry) : Nat :=
  ((processes listing).take maxScans).countP (fun entry =>
    entry.Member pgid ∧ ¬entry.InGroup pgid) +
    ((processes listing).drop maxScans).countP (·.Member pgid)

theorem countP_members {listing : List DirEntry} (pgid : Int32) :
    members pgid listing = (processes listing).countP (·.Member pgid) := by
  rw [members, processes, List.countP_filter]
  refine List.countP_congr fun entry _ => ?_
  simp only [decide_eq_true_eq, Bool.and_eq_true]
  exact ⟨fun h => ⟨h, h.isSome_pid?⟩, And.left⟩

theorem count_eq (pgid : Int32) (listing : List DirEntry) :
    countProcessesInPgid pgid (some listing) =
      (((processes listing).take maxScans).countP (·.InGroup pgid) : Nat) := by
  rw [countProcessesInPgid, countFrom_eq, Nat.zero_add, Nat.sub_zero]

/-- A group is not seen behind as many other processes as are scanned. -/
theorem count_hidden {pgid : Int32} {others members : List DirEntry}
    (hprocesses : ∀ entry ∈ others, entry.pid?.isSome)
    (hothers : ∀ entry ∈ others, ¬entry.InGroup pgid)
    (hmany : maxScans ≤ others.length) :
    countProcessesInPgid pgid (some (others ++ members)) = 0 := by
  have hfront : processes others = others :=
    List.filter_eq_self.mpr hprocesses
  have hnone : (others.take maxScans).countP (·.InGroup pgid) = 0 := by
    rw [List.countP_eq_zero]
    intro entry hentry
    simpa using hothers entry (List.mem_of_mem_take hentry)
  rw [count_eq, processes, List.filter_append, ← processes, hfront,
    List.take_append_of_le_length hmany, hnone]
  rfl

/-- Any cap lets such a group pass. -/
theorem enforceJobProcessCap_hidden {pgid : Int32}
    {others members : List DirEntry}
    (hprocesses : ∀ entry ∈ others, entry.pid?.isSome)
    (hothers : ∀ entry ∈ others, ¬entry.InGroup pgid)
    (hmany : maxScans ≤ others.length) {job : Job} {answers : ScanAnswers}
    (hcap : 0 ≤ job.maxChildProcesses)
    (hcount : answers.processCount =
      countProcessesInPgid pgid (some (others ++ members))) (nowMs : UInt64) :
    job.enforceJobProcessCap nowMs answers = pure (false, job) := by
  rw [count_hidden hprocesses hothers hmany] at hcount
  unfold Job.enforceJobProcessCap
  split
  · rfl
  · rw [hcount, if_neg (by decide), if_neg (Int.not_lt.mpr hcap)]

/-- The directory of a process that sleeps. -/
def sleeping (pid pgrp : Nat) : DirEntry where
  isDir := true
  name := print 10 pid
  stat := some (StartTime.statLine (print 10 pid) (bytes "sleep")
    (StartTime.spaced [[0x53], print 10 1, print 10 pgrp] ++ [0x0a]))

theorem length_print_le {n : Nat} (h : n < 2 ^ 31) :
    (print 10 n).length ≤ 10 := by
  rw [print, List.length_map, Nat.length_toDigits_le_iff (by decide)
    (by decide)]
  exact h.trans (by decide)

theorem fields_sleeping (pgrp : Nat) :
    StartTime.Fields [[0x53], print 10 1, print 10 pgrp]
      (StartTime.spaced [[0x53], print 10 1, print 10 pgrp]) := by
  have hstate : StartTime.Token [0x53] := by decide
  have hprint := fun n =>
    StartTime.Token.mk (print_ne_nil 10 n) (plain_print n)
  exact .spaced (List.forall_mem_cons.mpr ⟨hstate, List.forall_mem_cons.mpr
    ⟨hprint 1, List.forall_mem_singleton.mpr (hprint pgrp)⟩⟩)

/-- The line of a sleeping process has room in the buffer, whatever the numbers
are. -/
theorem oneLine_sleeping {pid pgrp : Nat} (hpid : pid < 2 ^ 31)
    (hpgrp : pgrp < 2 ^ 31) :
    OneLine (StartTime.statLine (print 10 pid) (bytes "sleep")
      (StartTime.spaced [[0x53], print 10 1, print 10 pgrp] ++ [0x0a])) := by
  have hcomm : bytes "sleep" = [0x73, 0x6c, 0x65, 0x65, 0x70] := by
    decide +kernel
  have hparent : print 10 1 = [0x31] := by decide +kernel
  rw [hcomm, hparent]
  constructor
  · rw [StartTime.statLine_eq, ← List.cons_append, ← List.append_assoc,
      List.dropLast_concat, ← StartTime.statLine_eq]
    have hdigits : ∀ n, ∀ c ∈ print 10 n, c ≠ 0x0a := fun n c hc =>
      ne_of_isDigit (isDigit_print n c hc) rfl
    intro hmem
    refine absurd rfl (StartTime.forall_mem_statLine (P := (· ≠ 0x0a))
      (by decide) (by decide) (by decide) (hdigits pid)
      (forall_mem_of_all (by decide)) ?_ _ hmem)
    simp only [StartTime.spaced, List.flatMap_cons, List.flatMap_nil,
      List.forall_mem_append, List.append_nil]
    exact ⟨forall_mem_of_all (by decide), forall_mem_of_all (by decide),
      List.forall_mem_cons.mpr ⟨by decide, hdigits pgrp⟩⟩
  · have hpidLength := length_print_le hpid
    have hpgrpLength := length_print_le hpgrp
    rw [StartTime.length_statLine, statLineSize]
    simp only [StartTime.spaced, List.flatMap_cons, List.flatMap_nil,
      List.length_append, List.length_cons, List.length_nil]
    omega

theorem statRecord_sleeping {pid pgrp : Nat} (hpos : 0 < pid)
    (hpid : pid < 2 ^ 31) (hpgrp : pgrp < 2 ^ 31) : StatRecord (asInt pgrp)
      (StartTime.statLine (print 10 pid) (bytes "sleep")
        (StartTime.spaced [[0x53], print 10 1, print 10 pgrp] ++ [0x0a])) where
  exists_fields := by
    have hgroup : (asInt pgrp).toInt = pgrp :=
      asInt_of_range (by omega) (by omega)
    have hliteral := Literal.print pgrp
    rw [← hgroup] at hliteral
    exact ⟨pid, bytes "sleep", _, 0x53, _, _, [], 1, hpos, hpid,
      forall_mem_of_all (by decide +kernel), (fields_sleeping pgrp).concat,
      Literal.print 1, hliteral, rfl⟩

theorem member_sleeping {pid pgrp : Nat} (hpos : 0 < pid) (hpid : pid < 2 ^ 31)
    (hpgrp : pgrp < 2 ^ 31) : (sleeping pid pgrp).Member (asInt pgrp) where
  isDir := rfl
  exists_pid := ⟨pid, hpos, hpid, rfl⟩
  exists_record := ⟨_, rfl, statRecord_sleeping hpos hpid hpgrp⟩

theorem inGroup_sleeping {pid pgrp : Nat} (hpos : 0 < pid) (hpid : pid < 2 ^ 31)
    (hpgrp : pgrp < 2 ^ 31) {pgid : Int32} :
    (sleeping pid pgrp).InGroup pgid ↔ pgid = asInt pgrp := by
  have hline := (statRecord_sleeping hpos hpid hpgrp).groupLine
    (oneLine_sleeping hpid hpgrp)
  constructor
  · rintro ⟨file, hfile, hgroup⟩
    obtain rfl := Option.some.inj hfile
    exact hgroup.unique hline
  · rintro rfl
    exact ⟨_, rfl, hline⟩

/-- Five thousand sleeping processes, and behind them the leader of a group. -/
def crowd : List DirEntry :=
  (List.range maxScans).map (fun n => sleeping (n + 2) 1) ++
    [sleeping 6000 6000]

/-- What is taken for a process of the group, and what is missed, make up the
difference to the answer. -/
theorem count_add_missed (pgid : Int32) (listing : List DirEntry) :
    countProcessesInPgid pgid (some listing) + missed pgid listing =
      members pgid listing + misread pgid listing := by
  have hsplit := congrArg (List.countP (·.Member pgid))
    (List.take_append_drop maxScans (processes listing))
  rw [List.countP_append, ← countP_members] at hsplit
  have hswap := countP_add_countP (·.InGroup pgid) (·.Member pgid)
    ((processes listing).take maxScans)
  rw [count_eq, misread, missed, ← hsplit]
  omega

/-- An answer is never negative for a directory that can be opened. -/
theorem Exact.eq_members {pgid : Int32} {listing : List DirEntry}
    (h : Exact pgid (some listing)) :
    countProcessesInPgid pgid (some listing) = (members pgid listing : Nat) := by
  have hcount := count_eq pgid listing
  rcases h with hnegative | ⟨other, hother, hexact⟩
  · omega
  · obtain rfl := Option.some.inj hother
    exact hexact

theorem exact_some_iff (pgid : Int32) (listing : List DirEntry) :
    Exact pgid (some listing) ↔ misread pgid listing = missed pgid listing := by
  have hsum := count_add_missed pgid listing
  constructor
  · intro h
    have hexact := h.eq_members
    omega
  · intro h
    exact .inr ⟨listing, rfl, by omega⟩

/-- Among regular processes only those behind the cap are missed. -/
theorem misread_eq_missed_iff {pgid : Int32} {listing : List DirEntry}
    (hregular : ∀ entry ∈ (processes listing).take maxScans, entry.Regular) :
    misread pgid listing = missed pgid listing ↔
      ∀ entry ∈ (processes listing).drop maxScans, ¬entry.Member pgid := by
  have hmisread : misread pgid listing = 0 := by
    rw [misread, List.countP_eq_zero]
    intro entry hentry
    simp [(hregular entry hentry).inGroup_iff_member pgid]
  have hmissed : missed pgid listing =
      ((processes listing).drop maxScans).countP (·.Member pgid) := by
    rw [missed, Nat.add_eq_right, List.countP_eq_zero]
    intro entry hentry
    simp [(hregular entry hentry).inGroup_iff_member pgid]
  rw [hmisread, hmissed, eq_comm, List.countP_eq_zero]
  simp

/-- The answer is exact if the directory cannot be opened, or as many entries are
taken for a process of the group as processes of the group are missed. Where the
scanned processes are regular, none of the group may come behind them. -/
theorem count_exact_iff (pgid : Int32) :
    (∀ procDir, Exact pgid procDir ↔
      ∀ listing, procDir = some listing →
        misread pgid listing = missed pgid listing) ∧
    ∀ listing,
      (∀ entry ∈ (processes listing).take maxScans, entry.Regular) →
        (Exact pgid (some listing) ↔
          ∀ entry ∈ (processes listing).drop maxScans,
            ¬entry.Member pgid) := by
  constructor
  · intro procDir
    cases procDir with
    | none =>
        refine iff_of_true (.inl ?_) ?_
        · rw [countProcessesInPgid]
          decide
        · intro listing h
          cases h
    | some listing =>
        rw [exact_some_iff]
        constructor
        · intro hbalance other hother
          obtain rfl := Option.some.inj hother
          exact hbalance
        · intro h
          exact h listing rfl
  · intro listing hregular
    rw [exact_some_iff, misread_eq_missed_iff hregular]

/-- What is no record, but has a state and two numbers behind a parenthesis. -/
def malformed : DirEntry where
  isDir := true
  name := bytes "70"
  stat := some (bytes "garbage) S 1 6000")

/-- The group is no `pid_t`. -/
def wideGroup : DirEntry where
  isDir := true
  name := bytes "70"
  stat := some (bytes "70 (sh) S 1 4294973296")

/-- The name has a newline. -/
def brokenName : DirEntry where
  isDir := true
  name := bytes "70"
  stat := some (bytes "70 (a\nb) S 1 6000\n")

theorem malformed_not_member : ¬malformed.Member 6000 := by
  intro h
  obtain ⟨file, hfile, hrecord⟩ := h.exists_record
  obtain rfl := Option.some.inj hfile
  obtain ⟨c, hc, hdigit⟩ := hrecord.exists_digit
  have hhead : (bytes "garbage) S 1 6000").head? = some 0x67 := by
    decide +kernel
  obtain rfl := Option.some.inj (hhead.symm.trans hc)
  cases hdigit

theorem wideGroup_not_member : ¬wideGroup.Member 6000 := by
  intro h
  obtain ⟨file, hfile, hrecord⟩ := h.exists_record
  obtain rfl := Option.some.inj hfile
  have hnumber : groupNumber (bytes "70 (sh) S 1 4294973296") =
      some 4294973296 := by
    decide +kernel
  have hsame := hnumber.symm.trans hrecord.groupNumber_eq
  exact absurd (Option.some.inj hsame) (by decide)

theorem brokenName_member : brokenName.Member 6000 where
  isDir := rfl
  exists_pid := ⟨70, by decide, by decide, by decide +kernel⟩
  exists_record := by
    refine ⟨_, rfl, 70, bytes "a\nb", _, 0x53, print 10 1, print 10 6000, [], 1,
      by decide, by decide, forall_mem_of_all (by decide +kernel),
      (fields_sleeping 6000).concat, Literal.print 1, Literal.print 6000, ?_⟩
    decide +kernel

theorem members_singleton (pgid : Int32) (entry : DirEntry) :
    members pgid [entry] = if entry.Member pgid then 1 else 0 := by
  simp [members, List.countP_cons]

/-- The group behind the crowd is not counted. -/
theorem count_crowd : countProcessesInPgid 6000 (some crowd) = 0 := by
  refine count_hidden ?_ ?_ ?_
  · intro entry hentry
    obtain ⟨n, hn, rfl⟩ := List.mem_map.mp hentry
    rw [List.mem_range, maxScans] at hn
    have hmember : (sleeping (n + 2) 1).Member (asInt (1 : Nat)) :=
      member_sleeping (by omega) (by omega) (by omega)
    exact hmember.isSome_pid?
  · intro entry hentry
    obtain ⟨n, hn, rfl⟩ := List.mem_map.mp hentry
    rw [List.mem_range, maxScans] at hn
    rw [inGroup_sleeping (by omega) (by omega) (by omega)]
    decide
  · rw [List.length_map, List.length_range]

theorem members_crowd_pos : 0 < members 6000 crowd := by
  have hleader : (sleeping 6000 6000).Member 6000 := by
    have hgroup : (6000 : Int32) = asInt (6000 : Nat) := by decide
    rw [hgroup]
    exact member_sleeping (by decide) (by decide) (by decide)
  exact List.countP_pos_iff.mpr
    ⟨_, List.mem_append_right _ List.mem_cons_self, by simpa using hleader⟩

/-- A group behind a crowd and a process whose name has a newline are missed; a
line that is no record and a number that is no group are counted. -/
theorem listings_not_exact :
    ¬Exact 6000 (some crowd) ∧ ¬Exact 6000 (some [malformed]) ∧
      ¬Exact 6000 (some [wideGroup]) ∧ ¬Exact 6000 (some [brokenName]) := by
  refine ⟨?_, ?_, ?_, ?_⟩
  · intro h
    have hexact := h.eq_members
    rw [count_crowd] at hexact
    have hpositive := members_crowd_pos
    omega
  · intro h
    have hexact := h.eq_members
    rw [members_singleton, if_neg malformed_not_member] at hexact
    exact absurd hexact (by decide +kernel)
  · intro h
    have hexact := h.eq_members
    rw [members_singleton, if_neg wideGroup_not_member] at hexact
    exact absurd hexact (by decide +kernel)
  · intro h
    have hexact := h.eq_members
    rw [members_singleton, if_pos brokenName_member] at hexact
    exact absurd hexact (by decide +kernel)

end Exact

end ProcfsProcessInspector

end HeidiKernel
