import HeidiKernel.Daemon.PolicyUpdate
import HeidiKernel.Data.Directory
import HeidiKernel.Data.Output

namespace HeidiKernel.Daemon

open HeidiKernel.Data
open HeidiKernel.Data.Numeric
open HeidiKernel.Gov (comma colon quote lbrace rbrace)

/-! The policy file. It is written as a document of six settings, one a line,
and read by cutting it at the commas. -/

structure PolicyStore where
  path : Bytes

inductive SaveError
  | notOpened
  | notRenamed
  deriving DecidableEq, Repr

/-- Whether the calls of `save` that may fail succeed. -/
structure SaveAnswers where
  opened : Bool := true
  renamed : Bool := true
  deriving DecidableEq, Repr

namespace PolicyStore

def printSetting (key : String) (value : Bytes) : Bytes :=
  bytes "  \"" ++ bytes key ++ bytes "\": " ++ value

/-- The document. How a stream prints a watermark is left open. -/
def policyText (printDouble : Double → Bytes) (policy : GovernorPolicy) :
    Bytes :=
  bytes "\x7b\n" ++
    printSetting "max_running_jobs" (printInt policy.maxRunningJobs.toInt) ++
    bytes ",\n" ++
    printSetting "max_queue_depth" (printInt policy.maxQueueDepth.toInt) ++
    bytes ",\n" ++
    printSetting "cpu_high_watermark_pct"
      (printDouble policy.cpuHighWatermarkPct) ++
    bytes ",\n" ++
    printSetting "mem_high_watermark_pct"
      (printDouble policy.memHighWatermarkPct) ++
    bytes ",\n" ++
    printSetting "cooldown_ms" (print 10 policy.cooldownMs.toNat) ++
    bytes ",\n" ++
    printSetting "min_start_gap_ms" (print 10 policy.minStartGapMs.toNat) ++
    bytes "\n" ++ bytes "\x7d\n"

def tempPath (store : PolicyStore) : Bytes := store.path ++ bytes ".tmp"

def save (printDouble : Double → Bytes) (answers : SaveAnswers)
    (policy : GovernorPolicy) (store : PolicyStore)
    (dir : Directory Bytes UInt8) :
    Except SaveError Unit × Directory Bytes UInt8 :=
  if !answers.opened then
    (.error .notOpened, dir)
  else
    let dir := (dir.remove store.tempPath).write store.tempPath
      (policyText printDouble policy)
    if !answers.renamed then
      (.error .notRenamed, dir)
    else
      (.ok (), dir.rename store.tempPath store.path)

/-- What follows the colon, with its blanks. -/
def storedValue (token : Bytes) : Bytes := (token.dropWhile (· ≠ colon)).tail

def readToken (token : Bytes) : Except Crash (Option (Bytes × Bytes)) :=
  let token := trimToken token
  if colon ∈ token then do
    let key ← trimFrontQuote (keyText token)
    let key ← trimBackQuote key
    pure (some (key, storedValue token))
  else
    pure none

def loadToken (policy : GovernorPolicy) (token : Bytes) :
    Except Crash GovernorPolicy := do
  match ← readToken token with
  | none => pure policy
  | some (key, value) => assign key value policy

/-- A limit out of its range is the default again. -/
def checkRanges (policy : GovernorPolicy) : GovernorPolicy :=
  { policy with
    maxRunningJobs :=
      if limitOutside policy.maxRunningJobs 1 1000 then 10
      else policy.maxRunningJobs
    maxQueueDepth :=
      if limitOutside policy.maxQueueDepth 1 10000 then 100
      else policy.maxQueueDepth }

def load (store : PolicyStore) (dir : Directory Bytes UInt8) :
    Except Crash GovernorPolicy :=
  match dir.lookup store.path with
  | none => pure {}
  | some content => do
      let policy ← (commaTokens content).foldlM loadToken {}
      pure (checkRanges policy)

/-! A line of the document, as the tokens between the commas hold it: the key in
quotes, the value, and padding around them. -/

def settingToken (front : Bytes) (key : String) (value back : Bytes) : Bytes :=
  front ++ (quote :: (bytes key ++ (quote :: colon :: 0x20 :: value))) ++ back

/-- A text that neither the commas nor the trimming of a token cut. -/
def Plain (value : Bytes) : Prop :=
  ∀ c ∈ value, isPadding c = false ∧ c ≠ comma

instance (value : Bytes) : Decidable (Plain value) :=
  List.decidableBAll (fun c => isPadding c = false ∧ c ≠ comma) value

theorem plain_of_isDigit {c : UInt8} (h : isDigit c = true) :
    isPadding c = false ∧ c ≠ comma := by
  have hopen : c ≠ lbrace := ne_of_isDigit h rfl
  have hclose : c ≠ rbrace := ne_of_isDigit h rfl
  refine ⟨?_, ne_of_isDigit h rfl⟩
  simp [isPadding, not_isSpace_of_isDigit h, hopen, hclose]

theorem plain_print (n : Nat) : Plain (print 10 n) :=
  fun c hc => plain_of_isDigit (isDigit_print n c hc)

theorem plain_printInt {n : Int} (h : 0 ≤ n) : Plain (printInt n) := by
  rw [printInt, if_neg (Int.not_lt.mpr h)]
  exact plain_print _

section Token

variable {front value back : Bytes} {key : String}
  (hfront : ∀ c ∈ front, isPadding c = true)
  (hback : ∀ c ∈ back, isPadding c = true) (hvalue : Plain value)
  (hne : value ≠ []) (hkey : colon ∉ bytes key)

include hfront hback hvalue hne hkey

theorem readToken_setting :
    readToken (settingToken front key value back) =
      .ok (some (bytes key, 0x20 :: value)) := by
  have htrim : trimToken (settingToken front key value back) =
      quote :: (bytes key ++ (quote :: colon :: 0x20 :: value)) := by
    rw [trimToken, settingToken, List.append_assoc, List.cons_append,
      dropWhile_span_cons hfront (by decide), ← List.cons_append]
    apply rdropWhile_span hback (List.cons_ne_nil _ _)
    have hlast : (quote :: (bytes key ++ (quote :: colon :: 0x20 :: value))).getLast
        (List.cons_ne_nil _ _) = value.getLast hne := by
      simp [hne]
    rw [hlast]
    exact (hvalue _ (List.getLast_mem hne)).1
  have hsplit : quote :: (bytes key ++ (quote :: colon :: 0x20 :: value)) =
      (quote :: (bytes key ++ [quote])) ++ colon :: 0x20 :: value := by
    simp
  have hquoted : ∀ c ∈ quote :: (bytes key ++ [quote]),
      decide (c ≠ colon) = true := by
    intro c hc
    rw [decide_eq_true_eq]
    intro hcolon
    rw [hcolon, List.mem_cons, List.mem_append, List.mem_singleton] at hc
    rcases hc with hopen | hinside | hclose
    · exact absurd hopen (by decide)
    · exact hkey hinside
    · exact absurd hclose (by decide)
  have hkeyText : keyText ((quote :: (bytes key ++ [quote])) ++
      colon :: 0x20 :: value) = quote :: (bytes key ++ [quote]) := by
    exact takeWhile_span_cons hquoted (decide_eq_false (by simp)) _
  have hstored : storedValue ((quote :: (bytes key ++ [quote])) ++
      colon :: 0x20 :: value) = 0x20 :: value := by
    rw [storedValue, dropWhile_span_cons hquoted (decide_eq_false (by simp)),
      List.tail_cons]
  have hback : trimBackQuote (bytes key ++ [quote]) = .ok (bytes key) := by
    simp [trimBackQuote]
  simp only [readToken, htrim, hsplit, hkeyText, hstored]
  rw [if_pos (by simp), trimFrontQuote, if_pos rfl, ok_bind, hback, ok_bind]
  rfl

theorem loadToken_setting (policy : GovernorPolicy) :
    loadToken policy (settingToken front key value back) =
      assign (bytes key) (0x20 :: value) policy := by
  rw [loadToken, readToken_setting hfront hback hvalue hne hkey, ok_bind]

end Token

/-! The document is these tokens with commas between them. -/

def firstFront : Bytes := [lbrace, 0x0a, 0x20, 0x20]

def nextFront : Bytes := [0x0a, 0x20, 0x20]

def lastBack : Bytes := [0x0a, rbrace, 0x0a]

theorem printSetting_eq (key : String) (value : Bytes) :
    printSetting key value =
      [0x20, 0x20, quote] ++ bytes key ++ [quote, colon, 0x20] ++ value := by
  have hopen : bytes "  \"" = [0x20, 0x20, quote] := by decide +kernel
  have hclose : bytes "\": " = [quote, colon, 0x20] := by decide +kernel
  rw [printSetting, hopen, hclose]

def tokensOf (printDouble : Double → Bytes) (policy : GovernorPolicy) :
    List Bytes :=
  [settingToken firstFront "max_running_jobs"
      (printInt policy.maxRunningJobs.toInt) [],
    settingToken nextFront "max_queue_depth"
      (printInt policy.maxQueueDepth.toInt) [],
    settingToken nextFront "cpu_high_watermark_pct"
      (printDouble policy.cpuHighWatermarkPct) [],
    settingToken nextFront "mem_high_watermark_pct"
      (printDouble policy.memHighWatermarkPct) [],
    settingToken nextFront "cooldown_ms" (print 10 policy.cooldownMs.toNat) [],
    settingToken nextFront "min_start_gap_ms"
      (print 10 policy.minStartGapMs.toNat) lastBack]

theorem policyText_eq (printDouble : Double → Bytes)
    (policy : GovernorPolicy) :
    policyText printDouble policy =
      [comma].intercalate (tokensOf printDouble policy) := by
  have hopen : bytes "\x7b\n" = [lbrace, 0x0a] := by decide +kernel
  have hnext : bytes ",\n" = [comma, 0x0a] := by decide +kernel
  have hline : bytes "\n" = [0x0a] := by decide +kernel
  have hclose : bytes "\x7d\n" = [rbrace, 0x0a] := by decide +kernel
  simp [policyText, printSetting_eq, tokensOf, settingToken, firstFront,
    nextFront, lastBack, hopen, hnext, hline, hclose, List.intercalate]

theorem comma_not_mem_settingToken {front value back : Bytes} {key : String}
    (hfront : comma ∉ front) (hkey : comma ∉ bytes key) (hvalue : Plain value)
    (hback : comma ∉ back) : comma ∉ settingToken front key value back := by
  have hplain : comma ∉ value := fun hmem => (hvalue comma hmem).2 rfl
  have hmarks : comma ≠ quote ∧ comma ≠ colon ∧ comma ≠ 0x20 := by decide
  simp [settingToken, hfront, hkey, hplain, hback, hmarks]

theorem key_plain :
    ∀ key ∈ knownKeys, comma ∉ bytes key ∧ colon ∉ bytes key := by
  decide +kernel

/-! The readers skip the space behind the colon. -/

theorem isSpace_blank : ∀ c ∈ [(0x20 : UInt8)], isSpace c = true :=
  List.forall_mem_singleton.mpr rfl

theorem stoi_stored {n : Int32} (h : 0 ≤ n.toInt) :
    stoi (0x20 :: printInt n.toInt) = .ok n := by
  have hread := stoi_print isSpace_blank isDigit_head?_nil h
  rwa [List.append_nil] at hread

theorem stoull_stored (n : UInt64) :
    stoull (0x20 :: print 10 n.toNat) = .ok n := by
  have hread := stoull_print isSpace_blank isDigit_head?_nil n
  rwa [List.append_nil] at hread

theorem stod_stored (text : Bytes) :
    Double.stod (0x20 :: text) = Double.stod text := by
  have hskip : (0x20 :: text).dropWhile isSpace = text.dropWhile isSpace :=
    List.dropWhile_cons_of_pos rfl
  rw [Double.stod, hskip, Double.stod]

theorem stod_nil : Double.stod [] = .error .invalidArgument := by
  decide +kernel

theorem ne_nil_of_stod {text : Bytes} {x : Double}
    (h : Double.stod text = .ok x) : text ≠ [] := by
  intro hempty
  rw [hempty, stod_nil] at h
  cases h

theorem assign_of_assigned {key value : Bytes}
    {policy policy' : GovernorPolicy} (h : Assigned value policy key policy') :
    assign key value policy = .ok policy' := by
  cases h with
  | maxRunningJobs h => simp [assign, orThrow, h]
  | maxQueueDepth h => simp [assign, orThrow, h]
  | cpuHighWatermarkPct h => simp [assign, orThrow, h]
  | memHighWatermarkPct h => simp [assign, orThrow, h]
  | cooldownMs h => simp [assign, orThrow, h]
  | minStartGapMs h => simp [assign, orThrow, h]
  | unknown h =>
      simp only [knownKeys, List.forall_mem_cons] at h
      simp [assign, h]

section RoundTrip

variable {printDouble : Double → Bytes} {policy : GovernorPolicy}
  {cpuPct memPct : Double}

/-- What is asked of a policy before it is saved: limits in their ranges, and
watermarks whose printed texts are read as numbers and cut by nothing. -/
structure Storable (printDouble : Double → Bytes) (policy : GovernorPolicy)
    (cpuPct memPct : Double) : Prop where
  maxRunningJobs : 1 ≤ policy.maxRunningJobs.toInt ∧
    policy.maxRunningJobs.toInt ≤ 1000
  maxQueueDepth : 1 ≤ policy.maxQueueDepth.toInt ∧
    policy.maxQueueDepth.toInt ≤ 10000
  cpuPlain : Plain (printDouble policy.cpuHighWatermarkPct)
  memPlain : Plain (printDouble policy.memHighWatermarkPct)
  cpuRead : Double.stod (printDouble policy.cpuHighWatermarkPct) = .ok cpuPct
  memRead : Double.stod (printDouble policy.memHighWatermarkPct) = .ok memPct

variable (h : Storable printDouble policy cpuPct memPct)

include h

theorem commaTokens_policyText :
    commaTokens (policyText printDouble policy) =
      tokensOf printDouble policy := by
  have hrunning := plain_printInt (Int.le_trans (by decide) h.maxRunningJobs.1)
  have hqueue := plain_printInt (Int.le_trans (by decide) h.maxQueueDepth.1)
  have hfree : ∀ token ∈ tokensOf printDouble policy, comma ∉ token := by
    have hfirst : comma ∉ firstFront := by decide
    have hnext : comma ∉ nextFront := by decide
    have hlast : comma ∉ lastBack := by decide
    have hnone : comma ∉ ([] : Bytes) := List.not_mem_nil
    have hkeys := key_plain
    simp only [knownKeys, List.forall_mem_cons] at hkeys
    obtain ⟨hkey₁, hkey₂, hkey₃, hkey₄, hkey₅, hkey₆, _⟩ := hkeys
    simp only [tokensOf, List.forall_mem_cons]
    exact ⟨comma_not_mem_settingToken hfirst hkey₁.1 hrunning hnone,
      comma_not_mem_settingToken hnext hkey₂.1 hqueue hnone,
      comma_not_mem_settingToken hnext hkey₃.1 h.cpuPlain hnone,
      comma_not_mem_settingToken hnext hkey₄.1 h.memPlain hnone,
      comma_not_mem_settingToken hnext hkey₅.1 (plain_print _) hnone,
      comma_not_mem_settingToken hnext hkey₆.1 (plain_print _) hlast,
      List.forall_mem_nil _⟩
  have hsplit : (policyText printDouble policy).splitOn comma =
      tokensOf printDouble policy := by
    rw [policyText_eq]
    exact List.splitOn_intercalate comma hfree (List.cons_ne_nil _ _)
  rw [commaTokens]
  simp only [hsplit]
  rw [if_neg]
  simp [tokensOf, settingToken]

theorem foldlM_tokensOf :
    (tokensOf printDouble policy).foldlM loadToken {} =
      .ok { policy with
        cpuHighWatermarkPct := cpuPct
        memHighWatermarkPct := memPct } := by
  have hrunning : 0 ≤ policy.maxRunningJobs.toInt :=
    Int.le_trans (by decide) h.maxRunningJobs.1
  have hqueue : 0 ≤ policy.maxQueueDepth.toInt :=
    Int.le_trans (by decide) h.maxQueueDepth.1
  have hfirst : ∀ c ∈ firstFront, isPadding c = true := by
    simp only [firstFront, List.forall_mem_cons]
    exact ⟨rfl, rfl, rfl, rfl, List.forall_mem_nil _⟩
  have hnext : ∀ c ∈ nextFront, isPadding c = true := by
    simp only [nextFront, List.forall_mem_cons]
    exact ⟨rfl, rfl, rfl, List.forall_mem_nil _⟩
  have hlast : ∀ c ∈ lastBack, isPadding c = true := by
    simp only [lastBack, List.forall_mem_cons]
    exact ⟨rfl, rfl, rfl, List.forall_mem_nil _⟩
  have hnone : ∀ c ∈ ([] : Bytes), isPadding c = true := List.forall_mem_nil _
  have hcpu := ne_nil_of_stod h.cpuRead
  have hmem := ne_nil_of_stod h.memRead
  have hkeys := key_plain
  simp only [knownKeys, List.forall_mem_cons] at hkeys
  obtain ⟨hkey₁, hkey₂, hkey₃, hkey₄, hkey₅, hkey₆, _⟩ := hkeys
  rw [tokensOf, List.foldlM_cons,
    loadToken_setting hfirst hnone (plain_printInt hrunning)
      (printInt_ne_nil _) hkey₁.2,
    assign_of_assigned (.maxRunningJobs (stoi_stored hrunning)), ok_bind,
    List.foldlM_cons,
    loadToken_setting hnext hnone (plain_printInt hqueue)
      (printInt_ne_nil _) hkey₂.2,
    assign_of_assigned (.maxQueueDepth (stoi_stored hqueue)), ok_bind,
    List.foldlM_cons,
    loadToken_setting hnext hnone h.cpuPlain hcpu hkey₃.2,
    assign_of_assigned
      (.cpuHighWatermarkPct ((stod_stored _).trans h.cpuRead)), ok_bind,
    List.foldlM_cons,
    loadToken_setting hnext hnone h.memPlain hmem hkey₄.2,
    assign_of_assigned
      (.memHighWatermarkPct ((stod_stored _).trans h.memRead)), ok_bind,
    List.foldlM_cons,
    loadToken_setting hnext hnone (plain_print _) (print_ne_nil 10 _) hkey₅.2,
    assign_of_assigned (.cooldownMs (stoull_stored _)), ok_bind,
    List.foldlM_cons,
    loadToken_setting hnext hlast (plain_print _) (print_ne_nil 10 _) hkey₆.2,
    assign_of_assigned (.minStartGapMs (stoull_stored _)), ok_bind,
    List.foldlM_nil]
  rfl

theorem checkRanges_storable :
    checkRanges { policy with
        cpuHighWatermarkPct := cpuPct
        memHighWatermarkPct := memPct } =
      { policy with
        cpuHighWatermarkPct := cpuPct
        memHighWatermarkPct := memPct } := by
  have hrunning : limitOutside policy.maxRunningJobs 1 1000 = false :=
    limitOutside_eq_false.mpr h.maxRunningJobs
  have hqueue : limitOutside policy.maxQueueDepth 1 10000 = false :=
    limitOutside_eq_false.mpr h.maxQueueDepth
  simp only [checkRanges, hrunning, hqueue, Bool.false_eq_true, if_false]

end RoundTrip

theorem tempPath_ne (store : PolicyStore) : store.path ≠ store.tempPath := by
  have hne : bytes ".tmp" ≠ [] := by decide +kernel
  intro hsame
  exact hne (List.append_right_eq_self.mp hsame.symm)

theorem lookup_save {store : PolicyStore} {printDouble : Double → Bytes}
    {answers : SaveAnswers} {policy : GovernorPolicy}
    {dir dir' : Directory Bytes UInt8}
    (h : store.save printDouble answers policy dir = (.ok (), dir')) :
    dir'.lookup store.path = some (policyText printDouble policy) := by
  unfold save at h
  split at h
  · cases h
  · dsimp only at h
    split at h
    · cases h
    · obtain ⟨_, rfl⟩ := Prod.mk.inj h
      have hempty : (dir.remove store.tempPath).content store.tempPath = [] := by
        rw [Directory.content, Directory.lookup_remove_self]
        rfl
      rw [Directory.lookup_rename_target, Directory.lookup_write_self, hempty]
      rfl

/-- A call that throws leaves the policy file as it was. -/
theorem lookup_failed_save {store : PolicyStore} {printDouble : Double → Bytes}
    {answers : SaveAnswers} {policy : GovernorPolicy} {error : SaveError}
    {dir dir' : Directory Bytes UInt8}
    (h : store.save printDouble answers policy dir = (.error error, dir')) :
    dir'.lookup store.path = dir.lookup store.path := by
  unfold save at h
  split at h
  · obtain ⟨_, rfl⟩ := Prod.mk.inj h
    rfl
  · dsimp only at h
    split at h
    · obtain ⟨_, rfl⟩ := Prod.mk.inj h
      rw [Directory.lookup_write_ne _ store.tempPath_ne,
        Directory.lookup_remove_ne _ store.tempPath_ne]
    · cases h

/-- What is saved is loaded again. -/
theorem load_save {printDouble : Double → Bytes} {policy : GovernorPolicy}
    {cpuPct memPct : Double} (h : Storable printDouble policy cpuPct memPct)
    {store : PolicyStore} {answers : SaveAnswers}
    {dir dir' : Directory Bytes UInt8}
    (hsave : store.save printDouble answers policy dir = (.ok (), dir')) :
    ∃ loaded, store.load dir' = .ok loaded ∧
      loaded.maxRunningJobs = policy.maxRunningJobs ∧
      loaded.maxQueueDepth = policy.maxQueueDepth ∧
      loaded.cooldownMs = policy.cooldownMs ∧
      loaded.minStartGapMs = policy.minStartGapMs ∧
      Double.stod (printDouble policy.cpuHighWatermarkPct) =
        .ok loaded.cpuHighWatermarkPct ∧
      Double.stod (printDouble policy.memHighWatermarkPct) =
        .ok loaded.memHighWatermarkPct := by
  have hload : store.load dir' = .ok { policy with
      cpuHighWatermarkPct := cpuPct
      memHighWatermarkPct := memPct } := by
    simp only [load, lookup_save hsave]
    rw [commaTokens_policyText h, foldlM_tokensOf h, ok_bind,
      checkRanges_storable h]
    rfl
  exact ⟨_, hload, rfl, rfl, rfl, rfl, h.cpuRead, h.memRead⟩

theorem default_storable :
    Storable Double.print {} (.ofNat 85) (.ofNat 90) where
  maxRunningJobs := by decide
  maxQueueDepth := by decide
  cpuPlain := by decide +kernel
  memPlain := by decide +kernel
  cpuRead := by decide +kernel
  memRead := by decide +kernel

theorem load_save_default :
    ∃ loaded, (⟨bytes "policy.json"⟩ : PolicyStore).load
        ((⟨bytes "policy.json"⟩ : PolicyStore).save Double.print {} {} ∅).2 =
          .ok loaded ∧
      loaded.maxRunningJobs = 10 ∧ loaded.cooldownMs = 1000 := by
  obtain ⟨loaded, hload, hrunning, _, hcooldown, _⟩ :=
    load_save default_storable
      (show (⟨bytes "policy.json"⟩ : PolicyStore).save Double.print {} {} ∅ =
        (.ok (), _) from rfl)
  exact ⟨loaded, hload, hrunning, hcooldown⟩

end PolicyStore

end HeidiKernel.Daemon
