import HeidiKernel.Metrics.Sampler

namespace HeidiKernel.Metrics

open Data Numeric

/-! Reading the memory from `/proc/meminfo`. -/

/-- All of `MemStats`, of which the history writes three fields. -/
structure MemInfo extends MemStats where
  buffers : UInt64 := 0
  cached : UInt64 := 0
  deriving DecidableEq, Repr

def MemInfo.assign (key : Bytes) (value : UInt64) (stats : MemInfo) : MemInfo :=
  if key = bytes "MemTotal:" then
    { stats with total := value }
  else if key = bytes "MemFree:" then
    { stats with free := value }
  else if key = bytes "MemAvailable:" then
    { stats with available := value }
  else if key = bytes "Buffers:" then
    { stats with buffers := value }
  else if key = bytes "Cached:" then
    { stats with cached := value }
  else
    stats

/-- One line. Where it ends behind its key, `value` keeps what it was declared
with, which is nothing in particular. The unit is not looked at. -/
def parseMemLine (stale : UInt64) (line : Bytes) (stats : MemInfo) : MemInfo :=
  let (key, iss) := IStream.getWord [] { rest := line }
  let (value, _) := iss.getUnsigned stale
  stats.assign key value

/-- What is read from `/proc/meminfo`; a file that cannot be opened has no
lines. -/
def readMemStats (stale : Bytes → UInt64) (file : Option Bytes) : MemInfo :=
  (lines (file.getD [])).foldl
    (fun stats line => parseMemLine (stale line) line stats) {}

/-! The fields, and the keys of their lines. -/

inductive MemField
  | total
  | free
  | available
  | buffers
  | cached
  deriving DecidableEq, Repr

def MemField.key : MemField → Bytes
  | total => bytes "MemTotal:"
  | free => bytes "MemFree:"
  | available => bytes "MemAvailable:"
  | buffers => bytes "Buffers:"
  | cached => bytes "Cached:"

def MemInfo.get (stats : MemInfo) : MemField → UInt64
  | .total => stats.total
  | .free => stats.free
  | .available => stats.available
  | .buffers => stats.buffers
  | .cached => stats.cached

theorem MemField.key_injective : Function.Injective MemField.key := by
  intro field other h
  cases field <;> cases other <;>
    first | rfl | exact absurd h (by decide +kernel)

/-- The keys the chain of comparisons goes through are those of the fields. -/
theorem MemInfo.assign_eq (stats : MemInfo) (key : Bytes) (value : UInt64) :
    stats.assign key value =
      if key = MemField.total.key then { stats with total := value }
      else if key = MemField.free.key then { stats with free := value }
      else if key = MemField.available.key then
        { stats with available := value }
      else if key = MemField.buffers.key then { stats with buffers := value }
      else if key = MemField.cached.key then { stats with cached := value }
      else stats := rfl

theorem MemInfo.get_assign (stats : MemInfo) (key : Bytes) (value : UInt64)
    (field : MemField) :
    (stats.assign key value).get field =
      if key = field.key then value else stats.get field := by
  rw [assign_eq]
  rcases em (∃ other : MemField, key = other.key) with ⟨other, rfl⟩ | hnone
  · simp only [MemField.key_injective.eq_iff]
    cases other <;> cases field <;> rfl
  · have hne : ∀ other : MemField, key ≠ other.key := fun other heq =>
      hnone ⟨other, heq⟩
    simp only [hne, if_false]

/-! A file in the format of the kernel. -/

/-- A line with a key, blanks, a number and a unit, in which nothing is taken
for something else. -/
structure MemLine where
  key : Bytes
  blanks : Bytes
  value : UInt64
  unit : Bytes
  key_ne : key ≠ []
  key_plain : ∀ c ∈ key, isSpace c = false
  blanks_ne : blanks ≠ []
  blanks_blank : ∀ c ∈ blanks, isSpace c = true ∧ c ≠ 0x0a
  unit_ends : ∀ c ∈ unit.head?, isDigit c = false
  unit_plain : 0x0a ∉ unit

namespace MemLine

def text (line : MemLine) : Bytes :=
  line.key ++ (line.blanks ++ (print 10 line.value.toNat ++ line.unit))

theorem text_plain (line : MemLine) : 0x0a ∉ line.text := by
  simp only [text, List.mem_append, not_or]
  refine ⟨?_, ?_, ?_, line.unit_plain⟩
  · exact fun hmem => Bool.false_ne_true ((line.key_plain _ hmem).symm.trans rfl)
  · exact fun hmem => (line.blanks_blank _ hmem).2 rfl
  · exact fun hmem =>
      Bool.false_ne_true (isDigit_print line.value.toNat _ hmem)

theorem parseMemLine_text (stale : UInt64) (line : MemLine) (stats : MemInfo) :
    parseMemLine stale line.text stats = stats.assign line.key line.value := by
  have hends : ∀ c ∈ (line.blanks ++
      (print 10 line.value.toNat ++ line.unit)).head?, isSpace c = true := by
    obtain ⟨blank, blanks, hblanks⟩ := List.exists_cons_of_ne_nil line.blanks_ne
    have hblank := (line.blanks_blank blank (by simp [hblanks])).1
    rw [hblanks]
    exact forall_mem_head?_cons hblank
  have hword := IStream.getWord_append (List.forall_mem_nil _) [] line.key_ne
    line.key_plain hends
  have hvalue := IStream.getUnsigned_print
    (fun c hc => (line.blanks_blank c hc).1) stale line.value line.unit_ends
  rw [List.nil_append] at hword
  simp only [parseMemLine, text, hword, hvalue]

end MemLine

def memInfoText (entries : List MemLine) : Bytes :=
  entries.flatMap fun line => line.text ++ [0x0a]

def lastValue? (key : Bytes) (entries : List MemLine) : Option UInt64 :=
  ((entries.filter fun line => line.key = key).getLast?).map MemLine.value

theorem lastValue?_concat (key : Bytes) (entries : List MemLine)
    (line : MemLine) :
    lastValue? key (entries ++ [line]) =
      if line.key = key then some line.value else lastValue? key entries := by
  rw [lastValue?, List.filter_append]
  split_ifs with hkey
  · simp [hkey]
  · simp [hkey, lastValue?]

/-- Of a file in the format of the kernel, with the lines in any order, each
field gets the value of the last line with its key, or zero if there is none;
what `value` was declared with never matters. -/
theorem readMemStats_memInfoText (stale : Bytes → UInt64)
    (entries : List MemLine) (field : MemField) :
    (readMemStats stale (some (memInfoText entries))).get field =
      (lastValue? field.key entries).getD 0 := by
  rw [readMemStats, Option.getD_some, memInfoText,
    lines_flatMap MemLine.text_plain]
  induction entries using List.reverseRecOn with
  | nil => cases field <;> rfl
  | append_singleton entries line ih =>
      rw [List.map_append, List.map_singleton, List.foldl_concat,
        MemLine.parseMemLine_text, MemInfo.get_assign, lastValue?_concat, ih]
      split_ifs <;> rfl

/-- A line as the kernel writes it. -/
def availableLine : MemLine where
  key := bytes "MemAvailable:"
  blanks := bytes "    "
  value := 8028160
  unit := bytes " kB"
  key_ne := by decide +kernel
  key_plain := by decide +kernel
  blanks_ne := by decide +kernel
  blanks_blank := by decide +kernel
  unit_ends := by decide +kernel
  unit_plain := by decide +kernel

theorem readMemStats_availableLine :
    availableLine.text = bytes "MemAvailable:    8028160 kB" ∧
      (readMemStats (fun _ => 7)
        (some (memInfoText [availableLine]))).get .available = 8028160 := by
  refine ⟨by decide +kernel, ?_⟩
  rw [readMemStats_memInfoText]
  decide +kernel

end HeidiKernel.Metrics
