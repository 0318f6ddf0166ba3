import HeidiKernel.Data.Double
import HeidiKernel.Data.Output

namespace HeidiKernel.Data

open Numeric

/-! Input streams over a text. Each reader skips blanks first, and none reads
on after one has failed. -/

structure IStream where
  rest : Bytes
  fail : Bool := false
  deriving DecidableEq, Repr

namespace IStream

/-- A reader sees a text that starts with no blank. At the end of the stream,
and after a failure, the target keeps its value. -/
def extract {α : Type*} (read : Bytes → α × IStream) (target : α)
    (iss : IStream) : α × IStream :=
  if iss.fail then
    (target, iss)
  else
    match iss.rest.dropWhile isSpace with
    | [] => (target, { rest := [], fail := true })
    | c :: rest => read (c :: rest)

def readChar (target : UInt8) (text : Bytes) : UInt8 × IStream :=
  (text.headD target, { rest := text.tail })

def readWord (text : Bytes) : Bytes × IStream :=
  (text.takeWhile (!isSpace ·), { rest := text.dropWhile (!isSpace ·) })

/-- A minus negates modulo the range. A text without a number gives zero, and a
number that does not fit the largest one, but both are failures. -/
def readUnsigned (text : Bytes) : UInt64 × IStream :=
  let (negative, rest) := readSign text
  let digits := rest.takeWhile isDigit
  let left := rest.dropWhile isDigit
  if digits = [] then
    (0, { rest := left, fail := true })
  else if natOfDigits 10 digits < 2 ^ 64 then
    let n := UInt64.ofNat (natOfDigits 10 digits)
    (if negative then -n else n, { rest := left })
  else
    (UInt64.ofNat (2 ^ 64 - 1), { rest := left, fail := true })

/-- The power of ten behind an `e`, none if it has no digit, and what follows
it. -/
def readScale (text : Bytes) : Option Int × Bytes :=
  match text with
  | [] => (some 0, [])
  | c :: rest =>
      if toLower c = 0x65 then
        let (negative, rest) := readSign rest
        let digits := rest.takeWhile isDigit
        let n : Int := natOfDigits 10 digits
        (if digits = [] then none else some (if negative then -n else n),
          rest.dropWhile isDigit)
      else
        (some 0, c :: rest)

def largest : ℚ≥0 := ((2 ^ 53 - 1) * 2 ^ 971 : Nat)

/-- A double is written with digits only: there is no word for an infinity or
for a NaN. -/
def readDouble (text : Bytes) : Double × IStream :=
  let (negative, rest) := readSign text
  let whole := rest.takeWhile isDigit
  let (fraction, rest) := Double.decimal.readFraction (rest.dropWhile isDigit)
  if whole ++ fraction = [] then
    (.finite false 0, { rest, fail := true })
  else
    match readScale rest with
    | (none, rest) => (.finite false 0, { rest, fail := true })
    | (some scale, rest) =>
        let q := natOfDigits 10 (whole ++ fraction) *
          Double.decimal.scale ^ (scale - fraction.length)
        if Double.overflows q then
          (.finite negative largest, { rest, fail := true })
        else
          (.finite negative (Double.nearest q), { rest })

def getChar (target : UInt8) (iss : IStream) : UInt8 × IStream :=
  iss.extract (readChar target) target

def getWord (target : Bytes) (iss : IStream) : Bytes × IStream :=
  iss.extract readWord target

def getUnsigned (target : UInt64) (iss : IStream) : UInt64 × IStream :=
  iss.extract readUnsigned target

def getDouble (target : Double) (iss : IStream) : Double × IStream :=
  iss.extract readDouble target

end IStream

/-- `std::getline` until it fails: an end of line at the very end starts no new
line. -/
def lines : Bytes → List Bytes
  | [] => []
  | c :: rest =>
      if c = 0x0a then
        [] :: lines rest
      else
        match lines rest with
        | [] => [[c]]
        | first :: others => (c :: first) :: others

namespace IStream

section Extract

variable {α : Type*} (read : Bytes → α × IStream) (target : α)

theorem extract_of_fail {iss : IStream} (h : iss.fail = true) :
    iss.extract read target = (target, iss) := by
  rw [extract, if_pos h]

theorem extract_cons {blanks : Bytes} (hblanks : ∀ c ∈ blanks, isSpace c = true)
    {c : UInt8} (hc : isSpace c = false) (rest : Bytes) :
    extract read target { rest := blanks ++ c :: rest } = read (c :: rest) := by
  rw [extract, dropWhile_span_cons hblanks hc]
  rfl

end Extract

/-! What is written is read back. -/

section Print

variable {blanks rest : Bytes} (hblanks : ∀ c ∈ blanks, isSpace c = true)

include hblanks

theorem getUnsigned_print (target n : UInt64)
    (hrest : ∀ c ∈ rest.head?, isDigit c = false) :
    getUnsigned target { rest := blanks ++ (print 10 n.toNat ++ rest) } =
      (n, { rest }) := by
  obtain ⟨d, digits, hprint⟩ :=
    List.exists_cons_of_ne_nil (print_ne_nil 10 n.toNat)
  have hd : isDigit d = true :=
    isDigit_print n.toNat d (by rw [hprint]; exact List.mem_cons_self)
  have htake := takeWhile_span (isDigit_print n.toNat) hrest
  have hdrop := dropWhile_span (isDigit_print n.toNat) hrest
  have hvalue : natOfDigits 10 (d :: digits) = n.toNat := by
    rw [← hprint, natOfDigits_print (by decide) (by decide)]
  rw [hprint, List.cons_append] at htake hdrop ⊢
  rw [getUnsigned, extract_cons _ _ hblanks (not_isSpace_of_isDigit hd),
    readUnsigned, readSign_digits hd]
  simp only [htake, hdrop, hvalue, if_neg (List.cons_ne_nil d digits),
    if_pos n.toNat_lt, Bool.false_eq_true, if_false, UInt64.ofNat_toNat]

theorem getChar_cons (target : UInt8) {c : UInt8} (hc : isSpace c = false)
    (rest : Bytes) :
    getChar target { rest := blanks ++ c :: rest } = (c, { rest }) :=
  extract_cons _ _ hblanks hc rest

theorem getWord_append (target : Bytes) {word : Bytes} (hne : word ≠ [])
    (hword : ∀ c ∈ word, isSpace c = false)
    (hrest : ∀ c ∈ rest.head?, isSpace c = true) :
    getWord target { rest := blanks ++ (word ++ rest) } = (word, { rest }) := by
  obtain ⟨c, word, rfl⟩ := List.exists_cons_of_ne_nil hne
  have hplain : ∀ d ∈ c :: word, (!isSpace d) = true := by
    intro d hd
    rw [hword d hd, Bool.not_false]
  have hends : ∀ d ∈ rest.head?, (!isSpace d) = false := by
    intro d hd
    rw [hrest d hd, Bool.not_true]
  rw [List.cons_append, getWord,
    extract_cons _ _ hblanks (hword c List.mem_cons_self), readWord,
    ← List.cons_append, takeWhile_span hplain hends,
    dropWhile_span hplain hends]

end Print

/-- Numbers with one space before each. -/
def spaced (numbers : List UInt64) : Bytes :=
  numbers.flatMap fun n => 0x20 :: print 10 n.toNat

theorem getUnsigned_spaced (target n : UInt64) (numbers : List UInt64) :
    getUnsigned target { rest := spaced (n :: numbers) } =
      (n, { rest := spaced numbers }) := by
  have hblank : ∀ c ∈ [(0x20 : UInt8)], isSpace c = true :=
    List.forall_mem_singleton.mpr rfl
  apply getUnsigned_print hblank
  cases numbers with
  | nil => simp
  | cons next numbers => exact forall_mem_head?_cons rfl

theorem spaced_plain (numbers : List UInt64) :
    ∀ c ∈ spaced numbers, c = 0x20 ∨ isDigit c = true := by
  intro c hc
  obtain ⟨n, _, hc⟩ := List.mem_flatMap.mp hc
  rcases List.mem_cons.mp hc with hblank | hdigit
  · exact .inl hblank
  · exact .inr (isDigit_print n.toNat c hdigit)

end IStream

/-! Lines. -/

theorem lines_line {line : Bytes} (h : 0x0a ∉ line) (rest : Bytes) :
    lines (line ++ 0x0a :: rest) = line :: lines rest := by
  induction line with
  | nil => rw [List.nil_append, lines, if_pos rfl]
  | cons c line ih =>
      rw [List.mem_cons, not_or] at h
      rw [List.cons_append, lines, if_neg (Ne.symm h.1), ih h.2]

theorem lines_flatMap {α : Type*} {text : α → Bytes}
    (h : ∀ a, 0x0a ∉ text a) (items : List α) :
    lines (items.flatMap fun a => text a ++ [0x0a]) = items.map text := by
  induction items with
  | nil => rfl
  | cons a items ih =>
      rw [List.flatMap_cons, List.append_assoc, List.singleton_append,
        lines_line (h a), ih, List.map_cons]

end HeidiKernel.Data
