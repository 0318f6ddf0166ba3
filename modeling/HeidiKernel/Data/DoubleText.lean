import HeidiKernel.Data.Input
import Mathlib.Algebra.Order.Field.Basic
import Mathlib.Tactic.NormNum
import Mathlib.Tactic.Ring

namespace HeidiKernel.Data.Double

open Numeric

/-! Reading back what an output stream writes for a double. -/

/-! Rounding. -/

theorem roundHalfEven_le (q : ℚ≥0) : roundHalfEven q ≤ ⌊q⌋₊ + 1 := by
  unfold roundHalfEven
  simp only
  split
  · exact Nat.le_succ _
  · split
    · exact Nat.le_succ _
    · exact Nat.le_refl _

theorem floor_le_roundHalfEven (q : ℚ≥0) : ⌊q⌋₊ ≤ roundHalfEven q := by
  unfold roundHalfEven
  simp only
  split
  · exact Nat.le_refl _
  · split
    · exact Nat.le_refl _
    · exact Nat.le_succ _

theorem roundHalfEven_le_of_lt {q : ℚ≥0} {n : Nat} (h : 2 * q < 2 * n + 1) :
    roundHalfEven q ≤ n := by
  have htwice : ⌊2 * q⌋₊ < 2 * n + 1 := by
    apply Nat.floor_lt' (Nat.succ_ne_zero _) |>.mpr
    exact_mod_cast h
  have hdouble : 2 * ⌊q⌋₊ ≤ ⌊2 * q⌋₊ := by
    apply Nat.le_floor
    push_cast
    exact mul_le_mul_of_nonneg_left (Nat.floor_le zero_le) zero_le
  rcases Nat.lt_or_ge ⌊q⌋₊ n with hless | hge
  · exact (roundHalfEven_le q).trans hless
  · have heq : ⌊2 * q⌋₊ = 2 * ⌊q⌋₊ := by omega
    rw [roundHalfEven]
    simp only [if_pos heq]
    omega

theorem roundAt_le {unit : ℚ≥0} (hunit : 0 < unit) (q : ℚ≥0) :
    roundAt unit q ≤ q + unit := by
  have hround : (roundHalfEven (q / unit) : ℚ≥0) ≤ q / unit + 1 := by
    have hle := roundHalfEven_le (q / unit)
    have hfloor := Nat.floor_le (zero_le : 0 ≤ q / unit)
    calc (roundHalfEven (q / unit) : ℚ≥0)
        ≤ (⌊q / unit⌋₊ + 1 : Nat) := by exact_mod_cast hle
      _ = ⌊q / unit⌋₊ + 1 := by push_cast; rfl
      _ ≤ q / unit + 1 := add_le_add_left hfloor 1
  calc roundAt unit q = roundHalfEven (q / unit) * unit := rfl
    _ ≤ (q / unit + 1) * unit := mul_le_mul_of_nonneg_right hround zero_le
    _ = q + unit := by
      rw [add_mul, one_mul, div_mul_cancel₀ _ (ne_of_gt hunit)]

/-- The largest number six digits can write below the bound. -/
def largestText : ℚ≥0 := (179769 * 10 ^ 303 : Nat)

theorem largestText_eq : largestText = 179769 * 10 ^ 303 := by
  simp only [largestText, Nat.cast_mul, Nat.cast_pow, Nat.cast_ofNat]

theorem decimal_scale : decimal.scale = 10 := rfl

theorem lastPlace_le {q : ℚ≥0} (hq : 0 < q) (h : q < bound) :
    max (lastPlace q) smallestUnit ≤ 2 ^ 971 := by
  have hlog : Int.log 2 q < 1024 := by
    rw [← Int.lt_zpow_iff_log_lt one_lt_two hq, zpow_ofNat]
    exact h
  apply max_le
  · rw [lastPlace, ← zpow_natCast]
    apply zpow_le_zpow_right₀ (by norm_num)
    push_cast
    omega
  · rw [smallestUnit, ← zpow_natCast]
    exact zpow_le_zpow_right₀ (by norm_num) (by norm_num)

theorem lastPlace_pos (q : ℚ≥0) : 0 < max (lastPlace q) smallestUnit :=
  lt_max_of_lt_left (zpow_pos two_pos _)

theorem not_overflows {q : ℚ≥0} (h : q ≤ largestText) : ¬overflows q := by
  have hsmall : largestText + 2 ^ 971 < bound := by
    have hnat : ((179769 * 10 ^ 303 + 2 ^ 971 : Nat) : ℚ≥0) < (2 ^ 1024 : Nat) :=
      Nat.cast_lt.mpr (by decide +kernel)
    rw [largestText_eq, bound]
    simpa only [Nat.cast_add, Nat.cast_mul, Nat.cast_pow, Nat.cast_ofNat]
      using hnat
  have hq : q < bound := by
    refine lt_of_le_of_lt h (lt_of_le_of_lt ?_ hsmall)
    exact le_add_of_nonneg_right zero_le
  rw [overflows, not_le, nearest]
  split
  · exact pow_pos two_pos _
  · rename_i hne
    have hpos : 0 < q := pos_iff_ne_zero.mpr hne
    calc roundAt (max (lastPlace q) smallestUnit) q
        ≤ q + max (lastPlace q) smallestUnit := roundAt_le (lastPlace_pos q) q
      _ ≤ largestText + 2 ^ 971 := add_le_add h (lastPlace_le hpos hq)
      _ < bound := hsmall

/-! The six digits a number is printed with. -/

/-- What is printed instead of a number. -/
def sixDigitsValue (q : ℚ≥0) : ℚ≥0 :=
  (sixDigits q).1 * decimal.scale ^ ((sixDigits q).2 - 5)

theorem lt_million (q : ℚ≥0) :
    q / 10 ^ (Int.log 10 q - 5) < 10 ^ 6 := by
  rw [div_lt_iff₀ (zpow_pos (by norm_num) _), ← zpow_natCast,
    ← zpow_add₀ (by norm_num)]
  have hlog := Int.lt_zpow_succ_log_self (b := 10) (by norm_num) q
  have hexp : ((6 : Nat) : Int) + (Int.log 10 q - 5) = Int.log 10 q + 1 := by
    push_cast
    omega
  rw [hexp]
  exact_mod_cast hlog

section SixDigits

variable {q : ℚ≥0} (hq : 0 < q)

include hq

theorem hundredThousand_le : 10 ^ 5 ≤ q / 10 ^ (Int.log 10 q - 5) := by
  rw [le_div_iff₀ (zpow_pos (by norm_num) _), ← zpow_natCast,
    ← zpow_add₀ (by norm_num)]
  have hlog := Int.zpow_log_le_self (b := 10) (by norm_num) hq
  have hexp : ((5 : Nat) : Int) + (Int.log 10 q - 5) = Int.log 10 q := by
    push_cast
    omega
  rw [hexp]
  exact_mod_cast hlog

theorem sixDigits_bounds :
    10 ^ 5 ≤ (sixDigits q).1 ∧ (sixDigits q).1 < 10 ^ 6 := by
  have hfloor : 10 ^ 5 ≤ ⌊q / 10 ^ (Int.log 10 q - 5)⌋₊ := by
    apply Nat.le_floor
    exact_mod_cast hundredThousand_le hq
  have hlow := hfloor.trans (floor_le_roundHalfEven _)
  have hhigh : roundHalfEven (q / 10 ^ (Int.log 10 q - 5)) ≤ 10 ^ 6 := by
    have hless : ⌊q / 10 ^ (Int.log 10 q - 5)⌋₊ < 10 ^ 6 := by
      rw [Nat.floor_lt' (by norm_num)]
      exact_mod_cast lt_million q
    exact (roundHalfEven_le _).trans hless
  unfold sixDigits
  simp only
  split
  · norm_num
  · omega

end SixDigits

theorem sixDigitsValue_eq (q : ℚ≥0) :
    sixDigitsValue q = roundHalfEven (q / 10 ^ (Int.log 10 q - 5)) *
      10 ^ (Int.log 10 q - 5) := by
  unfold sixDigitsValue sixDigits
  simp only [decimal_scale]
  split
  · rename_i hmillion
    have hexp : Int.log 10 q + 1 - 5 = 1 + (Int.log 10 q - 5) := by omega
    rw [hmillion, hexp, zpow_add₀ (by norm_num), ← mul_assoc]
    norm_num
  · rfl

theorem log_lt {q : ℚ≥0} (hq : 0 < q) (h : q < bound) : Int.log 10 q < 309 := by
  have hbound : bound < 10 ^ 309 := by
    have hnat : ((2 ^ 1024 : Nat) : ℚ≥0) < (10 ^ 309 : Nat) :=
      Nat.cast_lt.mpr (by decide +kernel)
    rw [bound]
    simpa only [Nat.cast_pow, Nat.cast_ofNat] using hnat
  rw [← Int.lt_zpow_iff_log_lt (by norm_num) hq, Nat.cast_ofNat, zpow_ofNat]
  exact h.trans hbound

/-- A number below the bound is not printed beyond it. -/
theorem sixDigitsValue_le {q : ℚ≥0} (hq : 0 < q) (h : q < bound) :
    sixDigitsValue q ≤ largestText := by
  have hlog := log_lt hq h
  rw [sixDigitsValue_eq]
  rcases Int.lt_or_eq_of_le (show Int.log 10 q ≤ 308 by omega) with hless | heq
  · have hmillion : (roundHalfEven (q / 10 ^ (Int.log 10 q - 5)) : ℚ≥0) ≤
        10 ^ 6 := by
      have hless := (Nat.floor_lt' (by norm_num)).mpr (lt_million q)
      exact_mod_cast (roundHalfEven_le _).trans hless
    have hscale : (10 : ℚ≥0) ^ (Int.log 10 q - 5) ≤ 10 ^ 302 := by
      rw [← zpow_natCast]
      apply zpow_le_zpow_right₀ (by norm_num)
      push_cast
      omega
    calc _ ≤ (10 : ℚ≥0) ^ 6 * 10 ^ 302 := mul_le_mul' hmillion hscale
      _ = 10 ^ 5 * 10 ^ 303 := by rw [← pow_add, ← pow_add]
      _ ≤ largestText := by
          rw [largestText_eq]
          exact mul_le_mul_of_nonneg_right (by norm_num) zero_le
  · have hhalf : 2 * (q / 10 ^ 303) < 2 * (179769 : Nat) + 1 := by
      rw [← mul_div_assoc, div_lt_iff₀ (by positivity)]
      have hnat : ((2 * 2 ^ 1024 : Nat) : ℚ≥0) <
          ((2 * 179769 + 1) * 10 ^ 303 : Nat) :=
        Nat.cast_lt.mpr (by decide +kernel)
      refine (mul_lt_mul_of_pos_left h two_pos).trans ?_
      rw [bound]
      simpa only [Nat.cast_mul, Nat.cast_add, Nat.cast_pow, Nat.cast_ofNat,
        Nat.cast_one] using hnat
    have hexp : (10 : ℚ≥0) ^ (Int.log 10 q - 5) = 10 ^ 303 := by
      rw [heq, ← zpow_natCast]
      norm_num
    rw [hexp, largestText_eq]
    apply mul_le_mul_of_nonneg_right _ zero_le
    exact_mod_cast roundHalfEven_le_of_lt hhalf

/-! The text of a number: digits, perhaps a fraction, perhaps a power of
ten. -/

def pointText (fraction : Bytes) : Bytes :=
  if fraction = [] then [] else 0x2e :: fraction

def scaleText : Option (Bool × Bytes) → Bytes
  | none => []
  | some (negative, digits) =>
      0x65 :: (if negative then 0x2d else 0x2b) :: digits

def scaleOf : Option (Bool × Bytes) → Int
  | none => 0
  | some (negative, digits) =>
      if negative then -natOfDigits 10 digits else natOfDigits 10 digits

def numberOf (whole fraction : Bytes) (scale : Option (Bool × Bytes)) : ℚ≥0 :=
  natOfDigits 10 (whole ++ fraction) *
    decimal.scale ^ (scaleOf scale - fraction.length)

def AllDigits (text : Bytes) : Prop := ∀ c ∈ text, isDigit c = true

structure Numeral (text : Bytes) (value : ℚ≥0) : Prop where
  parts : ∃ whole fraction scale, whole ≠ [] ∧ AllDigits whole ∧
    AllDigits fraction ∧
    (∀ negative digits, scale = some (negative, digits) →
      digits ≠ [] ∧ AllDigits digits) ∧
    text = whole ++ (pointText fraction ++ scaleText scale) ∧
    value = numberOf whole fraction scale

theorem Numeral.ne_nil {text : Bytes} {value : ℚ≥0} (h : Numeral text value) :
    text ≠ [] := by
  obtain ⟨whole, _, _, hne, _, _, _, rfl, _⟩ := h.parts
  exact List.append_ne_nil_of_left_ne_nil hne _

/-- No byte that could go on with a number. -/
def Ends (rest : Bytes) : Prop :=
  ∀ c ∈ rest.head?, isDigit c = false ∧ c ≠ 0x2e ∧ toLower c ≠ 0x65

theorem head_scaleText {rest : Bytes} {scale : Option (Bool × Bytes)}
    (hrest : ∀ c ∈ rest.head?, isDigit c = false ∧ c ≠ 0x2e) :
    ∀ c ∈ (scaleText scale ++ rest).head?, isDigit c = false ∧ c ≠ 0x2e := by
  cases scale with
  | none => exact hrest
  | some parts => exact forall_mem_head?_cons (by decide)

theorem readFraction_pointText {fraction rest : Bytes}
    (hfraction : AllDigits fraction)
    (hrest : ∀ c ∈ rest.head?, isDigit c = false ∧ c ≠ 0x2e) :
    decimal.readFraction (pointText fraction ++ rest) = (fraction, rest) := by
  unfold pointText
  split
  · rename_i hnil
    rw [hnil, List.nil_append]
    cases rest with
    | nil => rfl
    | cons c rest => exact if_neg (hrest c rfl).2
  · have htake := takeWhile_span hfraction fun c hc => (hrest c hc).1
    have hdrop := dropWhile_span hfraction fun c hc => (hrest c hc).1
    change (if (0x2e : UInt8) = 0x2e then
      ((fraction ++ rest).takeWhile isDigit, (fraction ++ rest).dropWhile isDigit)
      else ([], 0x2e :: (fraction ++ rest))) = _
    rw [if_pos rfl, htake, hdrop]

theorem head_pointText (fraction : Bytes) {rest : Bytes}
    (hrest : ∀ c ∈ rest.head?, isDigit c = false) :
    ∀ c ∈ (pointText fraction ++ rest).head?, isDigit c = false := by
  unfold pointText
  split
  · exact hrest
  · exact forall_mem_head?_cons rfl

def signText (negative : Bool) : Bytes := if negative then [0x2d] else []

theorem readSign_signText (negative : Bool) {text : Bytes} (hne : text ≠ [])
    (htext : ∀ c ∈ text.head?, isDigit c = true) :
    readSign (signText negative ++ text) = (negative, text) := by
  cases negative with
  | true => rfl
  | false =>
      obtain ⟨c, text, rfl⟩ := List.exists_cons_of_ne_nil hne
      exact readSign_digits (htext c rfl) text

section Read

variable {rest : Bytes} (hrest : Ends rest)

include hrest

theorem readScale_scaleText {scale : Option (Bool × Bytes)}
    (h : ∀ negative digits, scale = some (negative, digits) →
      digits ≠ [] ∧ AllDigits digits) :
    IStream.readScale (scaleText scale ++ rest) =
      (some (scaleOf scale), rest) := by
  cases scale with
  | none =>
      cases rest with
      | nil => rfl
      | cons c rest =>
          obtain ⟨_, _, hc⟩ := hrest c rfl
          simp [scaleText, IStream.readScale, hc, scaleOf]
  | some parts =>
      obtain ⟨negative, digits⟩ := parts
      obtain ⟨hne, hdigits⟩ := h negative digits rfl
      have htake := takeWhile_span hdigits fun c hc => (hrest c hc).1
      have hdrop := dropWhile_span hdigits fun c hc => (hrest c hc).1
      have hmark : toLower 0x65 = 0x65 := by decide
      cases negative with
      | true =>
          simp [scaleText, IStream.readScale, hmark, readSign, htake, hdrop, hne,
            scaleOf]
      | false =>
          simp [scaleText, IStream.readScale, hmark, readSign, htake, hdrop, hne,
            scaleOf]

/-- A number that does not overflow is read to its end. -/
theorem readDouble_numeral {text : Bytes} {value : ℚ≥0} (h : Numeral text value)
    (hvalue : ¬overflows value) (negative : Bool) :
    IStream.readDouble (signText negative ++ (text ++ rest)) =
      (.finite negative (nearest value), { rest }) := by
  obtain ⟨whole, fraction, scale, hne, hwhole, hfraction, hscale, rfl, rfl⟩ :=
    h.parts
  have hlast : ∀ c ∈ (scaleText scale ++ rest).head?,
      isDigit c = false ∧ c ≠ 0x2e :=
    head_scaleText fun c hc => ⟨(hrest c hc).1, (hrest c hc).2.1⟩
  have hmiddle := head_pointText fraction fun c hc => (hlast c hc).1
  have hsplit : whole ++ (pointText fraction ++ scaleText scale) ++ rest =
      whole ++ (pointText fraction ++ (scaleText scale ++ rest)) := by
    simp
  have hsign : readSign (signText negative ++
      (whole ++ (pointText fraction ++ (scaleText scale ++ rest)))) =
        (negative, whole ++ (pointText fraction ++ (scaleText scale ++ rest))) := by
    apply readSign_signText negative (by simp [hne])
    obtain ⟨d, whole, rfl⟩ := List.exists_cons_of_ne_nil hne
    exact forall_mem_head?_cons (hwhole d List.mem_cons_self)
  have htake := takeWhile_span hwhole hmiddle
  have hdrop := dropWhile_span hwhole hmiddle
  rw [hsplit, IStream.readDouble, hsign]
  simp only [htake, hdrop, readFraction_pointText hfraction hlast,
    readScale_scaleText hrest hscale]
  rw [if_neg (by simp [hne])]
  exact if_neg hvalue

end Read

/-! What is printed is such a text. -/

theorem natOfDigits_zeros (digits : Bytes) (n : Nat) :
    natOfDigits 10 (digits ++ List.replicate n 0x30) =
      natOfDigits 10 digits * 10 ^ n := by
  induction n with
  | zero => simp
  | succ n ih =>
      have hzero : digitValue 0x30 = 0 := by decide
      rw [List.replicate_succ', ← List.append_assoc, natOfDigits_concat, ih,
        hzero, pow_succ]
      ring

theorem exists_pointed (fraction : List Char) :
    ∃ kept n, fraction = kept ++ List.replicate n '0' ∧
      pointed fraction = if kept = [] then [] else '.' :: kept := by
  refine ⟨fraction.rdropWhile (· = '0'),
    (fraction.rtakeWhile (· = '0')).length, ?_, rfl⟩
  have hzeros : fraction.rtakeWhile (· = '0') =
      List.replicate (fraction.rtakeWhile (· = '0')).length '0' := by
    apply List.eq_replicate_of_mem
    intro c hc
    simpa using List.mem_rtakeWhile_imp hc
  rw [← hzeros]
  exact List.rdropWhile_append_rtakeWhile.symm

/-- The zeros that are not written do not count. -/
theorem numeral_pointed {whole : List Char} (fraction : List Char)
    (scale : Option (Bool × Bytes)) (hne : whole ≠ [])
    (hdigits : AllDigits ((whole ++ fraction).map Char.toUInt8))
    (hscale : ∀ negative digits, scale = some (negative, digits) →
      digits ≠ [] ∧ AllDigits digits) :
    Numeral ((whole ++ pointed fraction).map Char.toUInt8 ++ scaleText scale)
      (natOfDigits 10 ((whole ++ fraction).map Char.toUInt8) *
        10 ^ (scaleOf scale - fraction.length)) := by
  obtain ⟨kept, n, hfraction, hpointed⟩ := exists_pointed fraction
  have hsplit : (whole ++ fraction).map Char.toUInt8 =
      whole.map Char.toUInt8 ++ kept.map Char.toUInt8 ++
        List.replicate n 0x30 := by
    rw [hfraction, List.map_append, List.map_append, List.map_replicate,
      List.append_assoc]
    rfl
  rw [hsplit] at hdigits ⊢
  have hkept : AllDigits (whole.map Char.toUInt8 ++ kept.map Char.toUInt8) :=
    fun c hc => hdigits c (List.mem_append_left _ hc)
  refine ⟨whole.map Char.toUInt8, kept.map Char.toUInt8, scale, by simpa using hne,
    fun c hc => hkept c (List.mem_append_left _ hc),
    fun c hc => hkept c (List.mem_append_right _ hc), hscale, ?_, ?_⟩
  · rw [hpointed, List.map_append, List.append_assoc]
    by_cases hnil : kept = []
    · simp [hnil, pointText]
    · simp only [hnil, pointText, if_false, List.map_cons, List.map_eq_nil_iff]
      rfl
  · have hexp : scaleOf scale - kept.length =
        n + (scaleOf scale - fraction.length) := by
      rw [hfraction, List.length_append, List.length_replicate]
      push_cast
      omega
    rw [natOfDigits_zeros, numberOf, List.length_map, hexp, decimal_scale,
      zpow_add₀ (by norm_num), zpow_natCast]
    push_cast
    rw [mul_assoc]

theorem natOfDigits_leading (n : Nat) (digits : Bytes) :
    natOfDigits 10 (List.replicate n 0x30 ++ digits) = natOfDigits 10 digits := by
  induction n with
  | zero => rfl
  | succ n ih => exact ih

theorem allDigits_print (n : Nat) :
    AllDigits ((Nat.toDigits 10 n).map Char.toUInt8) :=
  isDigit_print n

theorem natOfDigits_toDigits (n : Nat) :
    natOfDigits 10 ((Nat.toDigits 10 n).map Char.toUInt8) = n :=
  natOfDigits_print (by decide) (by decide) n

theorem no_scale {negative : Bool} {digits : Bytes}
    (h : (none : Option (Bool × Bytes)) = some (negative, digits)) :
    digits ≠ [] ∧ AllDigits digits := by
  cases h

/-- How the exponent is written, with two digits at least. -/
def exponentDigits (power : Int) : List Char :=
  if (Nat.toDigits 10 power.natAbs).length < 2 then
    '0' :: Nat.toDigits 10 power.natAbs
  else
    Nat.toDigits 10 power.natAbs

def exponentScale (power : Int) : Option (Bool × Bytes) :=
  some (decide (power < 0), (exponentDigits power).map Char.toUInt8)

theorem exponentScale_digits (power : Int) {negative : Bool} {digits : Bytes}
    (h : exponentScale power = some (negative, digits)) :
    digits ≠ [] ∧ AllDigits digits := by
  obtain ⟨_, rfl⟩ := Prod.mk.inj (Option.some.inj h)
  unfold exponentDigits
  split
  · refine ⟨by simp, ?_⟩
    rw [List.map_cons]
    exact List.forall_mem_cons.mpr ⟨rfl, allDigits_print _⟩
  · exact ⟨by simp, allDigits_print _⟩

theorem scaleOf_exponentScale (power : Int) :
    scaleOf (exponentScale power) = power := by
  have hvalue : natOfDigits 10 ((exponentDigits power).map Char.toUInt8) =
      power.natAbs := by
    unfold exponentDigits
    split
    · exact (natOfDigits_leading 1 _).trans (natOfDigits_toDigits _)
    · exact natOfDigits_toDigits _
  rw [exponentScale, scaleOf, hvalue]
  by_cases hnegative : power < 0
  · simp only [hnegative, decide_true, if_true]
    omega
  · simp only [hnegative, decide_false, Bool.false_eq_true, if_false]
    omega

theorem scaleText_exponentScale (power : Int) :
    scaleText (exponentScale power) =
      (['e', if power < 0 then '-' else '+'] ++ exponentDigits power).map
        Char.toUInt8 := by
  rw [exponentScale, scaleText]
  by_cases hnegative : power < 0
  · simp only [hnegative, decide_true, if_true]
    rfl
  · simp only [hnegative, decide_false, Bool.false_eq_true, if_false]
    rfl

def printedValue (q : ℚ≥0) : ℚ≥0 := if q = 0 then 0 else sixDigitsValue q

section Branches

variable {n : Nat} {power : Int}

theorem length_sixDigits (hlow : 10 ^ 5 ≤ n) (hhigh : n < 10 ^ 6) :
    (Nat.toDigits 10 n).length = 6 := by
  have hsix := (Nat.length_toDigits_le_iff (b := 10) (n := n) (k := 6)
    (by decide) (by decide)).mpr hhigh
  have hfive := (Nat.length_toDigits_le_iff (b := 10) (n := n) (k := 5)
    (by decide) (by decide)).not.mpr (Nat.not_lt.mpr hlow)
  omega

variable (hlength : (Nat.toDigits 10 n).length = 6)

include hlength

theorem numeral_fixed (hpower : 0 ≤ power) (hsmall : power < 6) :
    Numeral (((Nat.toDigits 10 n).take (power.toNat + 1) ++
        pointed ((Nat.toDigits 10 n).drop (power.toNat + 1))).map Char.toUInt8)
      (n * 10 ^ (power - 5)) := by
  have hne : (Nat.toDigits 10 n).take (power.toNat + 1) ≠ [] := by simp
  have hnumeral := numeral_pointed
    ((Nat.toDigits 10 n).drop (power.toNat + 1)) none hne
    (by rw [List.take_append_drop]; exact allDigits_print n)
    (fun _ _ => no_scale)
  have hexp : scaleOf none -
      ((Nat.toDigits 10 n).drop (power.toNat + 1)).length = power - 5 := by
    rw [List.length_drop, hlength, scaleOf]
    omega
  rw [List.take_append_drop, natOfDigits_toDigits, hexp, scaleText,
    List.append_nil] at hnumeral
  exact hnumeral

theorem numeral_small (hpower : power < 0) :
    Numeral (('0' :: pointed (List.replicate (-power - 1).toNat '0' ++
        Nat.toDigits 10 n)).map Char.toUInt8)
      (n * 10 ^ (power - 5)) := by
  have hzeros : (['0'] ++ (List.replicate (-power - 1).toNat '0' ++
      Nat.toDigits 10 n)).map Char.toUInt8 =
        List.replicate ((-power - 1).toNat + 1) 0x30 ++
          (Nat.toDigits 10 n).map Char.toUInt8 := by
    rw [List.map_append, List.map_append, List.map_replicate,
      List.replicate_succ]
    rfl
  have hdigits : AllDigits (List.replicate ((-power - 1).toNat + 1) 0x30 ++
      (Nat.toDigits 10 n).map Char.toUInt8) := by
    intro c hc
    rcases List.mem_append.mp hc with hzero | hdigit
    · rw [List.eq_of_mem_replicate hzero]
      rfl
    · exact allDigits_print n c hdigit
  have hnumeral := numeral_pointed
    (List.replicate (-power - 1).toNat '0' ++ Nat.toDigits 10 n) none
    (List.cons_ne_nil '0' []) (by rw [hzeros]; exact hdigits)
    (fun _ _ => no_scale)
  have hexp : scaleOf none - (List.replicate (-power - 1).toNat '0' ++
      Nat.toDigits 10 n).length = power - 5 := by
    rw [List.length_append, List.length_replicate, hlength, scaleOf]
    omega
  rw [hzeros, natOfDigits_leading, natOfDigits_toDigits, hexp, scaleText,
    List.append_nil] at hnumeral
  exact hnumeral

theorem numeral_scaled (power : Int) :
    Numeral (((Nat.toDigits 10 n).take 1 ++
        pointed ((Nat.toDigits 10 n).drop 1) ++
        ['e', if power < 0 then '-' else '+'] ++ exponentDigits power).map
          Char.toUInt8)
      (n * 10 ^ (power - 5)) := by
  have hne : (Nat.toDigits 10 n).take 1 ≠ [] := by simp
  have hnumeral := numeral_pointed ((Nat.toDigits 10 n).drop 1)
    (exponentScale power) hne
    (by rw [List.take_append_drop]; exact allDigits_print n)
    (fun _ _ => exponentScale_digits power)
  have hexp : scaleOf (exponentScale power) -
      ((Nat.toDigits 10 n).drop 1).length = power - 5 := by
    rw [scaleOf_exponentScale, List.length_drop, hlength]
    rfl
  rw [List.take_append_drop, natOfDigits_toDigits, hexp,
    scaleText_exponentScale, ← List.map_append, ← List.append_assoc] at hnumeral
  exact hnumeral

end Branches

theorem numeral_printMagnitude (q : ℚ≥0) :
    Numeral ((printMagnitude q).map Char.toUInt8) (printedValue q) := by
  unfold printMagnitude printedValue
  by_cases hq : q = 0
  · rw [if_pos hq, if_pos hq]
    refine ⟨[0x30], [], none, List.cons_ne_nil _ _, allDigits_print 0,
      List.forall_mem_nil _, fun _ _ => no_scale, rfl, ?_⟩
    simp [numberOf, show natOfDigits 10 [0x30] = 0 from rfl]
  · rw [if_neg hq, if_neg hq, sixDigitsValue]
    obtain ⟨hlow, hhigh⟩ := sixDigits_bounds (pos_iff_ne_zero.mpr hq)
    generalize sixDigits q = parts at hlow hhigh ⊢
    obtain ⟨n, power⟩ := parts
    have hlength := length_sixDigits hlow hhigh
    simp only
    split
    · rename_i hfixed
      exact numeral_fixed hlength hfixed.1 hfixed.2
    · split
      · rename_i hsmall
        exact numeral_small hlength hsmall.2
      · exact numeral_scaled hlength power

/-! Only a finite double can be read back. -/

/-- No blanks and no control characters. -/
def Graphic (chars : List Char) : Prop :=
  ∀ c ∈ chars, 0x20 < c.val ∧ c.val < 0x7f

theorem Graphic.append {a b : List Char} (ha : Graphic a) (hb : Graphic b) :
    Graphic (a ++ b) :=
  List.forall_mem_append.mpr ⟨ha, hb⟩

theorem graphic_toDigits (n : Nat) : Graphic (Nat.toDigits 10 n) := by
  intro c hc
  have hdigit := Nat.isDigit_of_mem_toDigits (by decide) (by decide) hc
  simp only [Char.isDigit, Bool.and_eq_true, decide_eq_true_eq] at hdigit
  exact ⟨UInt32.lt_of_lt_of_le (by decide) hdigit.1,
    UInt32.lt_of_le_of_lt hdigit.2 (by decide)⟩

theorem Graphic.not_isSpace {chars : List Char} (h : Graphic chars) :
    ∀ c ∈ chars.map Char.toUInt8, isSpace c = false := by
  intro b hb
  obtain ⟨c, hc, rfl⟩ := List.mem_map.mp hb
  obtain ⟨hlow, hhigh⟩ := h c hc
  rw [UInt32.lt_iff_toNat_lt] at hlow hhigh
  change 0x20 < c.val.toNat at hlow
  change c.val.toNat < 0x7f at hhigh
  have hbyte : c.toUInt8.toNat = c.val.toNat := by
    change c.val.toNat % 256 = c.val.toNat
    omega
  apply not_isSpace_of_lt
  rw [UInt8.lt_iff_toNat_lt, hbyte]
  exact hlow

theorem Graphic.sublist {a b : List Char} (h : a.Sublist b) (hb : Graphic b) :
    Graphic a :=
  fun c hc => hb c (h.subset hc)

theorem graphic_pointed {fraction : List Char} (h : Graphic fraction) :
    Graphic (pointed fraction) := by
  have hkept : Graphic (fraction.rdropWhile (· = '0')) :=
    h.sublist (List.rdropWhile_prefix _ _).sublist
  unfold pointed
  simp only
  split
  · exact List.forall_mem_nil _
  · exact List.forall_mem_cons.mpr ⟨by decide, hkept⟩

theorem graphic_printMagnitude (q : ℚ≥0) : Graphic (printMagnitude q) := by
  have hdigits := graphic_toDigits
  have hzeros (n : Nat) : Graphic (List.replicate n '0') := by
    intro c hc
    rw [List.eq_of_mem_replicate hc]
    decide
  unfold printMagnitude
  split
  · exact hdigits 0
  · simp only
    split
    · exact ((hdigits _).sublist (List.take_sublist _ _)).append
        (graphic_pointed ((hdigits _).sublist (List.drop_sublist _ _)))
    · split
      · exact List.forall_mem_cons.mpr
          ⟨by decide, graphic_pointed ((hzeros _).append (hdigits _))⟩
      · refine ((((hdigits _).sublist (List.take_sublist _ _)).append
          (graphic_pointed ((hdigits _).sublist (List.drop_sublist _ _)))).append
            ?_).append ?_
        · refine List.forall_mem_cons.mpr ⟨by decide,
            List.forall_mem_singleton.mpr ?_⟩
          split <;> decide
        · split
          · exact List.forall_mem_cons.mpr ⟨by decide, hdigits _⟩
          · exact hdigits _

theorem print_finite (negative : Bool) (q : ℚ≥0) :
    (finite negative q).print =
      signText negative ++ (printMagnitude q).map Char.toUInt8 := by
  have hminus : bytes "-" = [0x2d] := by decide +kernel
  have hnone : bytes "" = [] := by decide +kernel
  rw [print]
  simp only
  rw [bytes_append, bytes_ofList fun c hc =>
    UInt32.le_of_lt (graphic_printMagnitude q c hc).2]
  cases negative with
  | true => exact congrArg (· ++ _) hminus
  | false => exact congrArg (· ++ _) hnone

theorem print_word (negative : Bool) :
    (nan negative).print = signText negative ++ [0x6e, 0x61, 0x6e] ∧
      (inf negative).print = signText negative ++ [0x69, 0x6e, 0x66] := by
  revert negative
  decide +kernel

theorem print_ne_nil (x : Double) : x.print ≠ [] := by
  cases x with
  | nan negative => rw [(print_word negative).1]; simp
  | inf negative => rw [(print_word negative).2]; simp
  | finite negative q =>
      rw [print_finite]
      simp [(numeral_printMagnitude q).ne_nil]

/-- No blank is written for a double. -/
theorem not_isSpace_print (x : Double) : ∀ c ∈ x.print, isSpace c = false := by
  have hsign (negative : Bool) : ∀ c ∈ signText negative, isSpace c = false := by
    cases negative with
    | false => exact List.forall_mem_nil _
    | true => exact List.forall_mem_singleton.mpr rfl
  cases x with
  | nan negative =>
      rw [(print_word negative).1]
      exact List.forall_mem_append.mpr
        ⟨hsign negative, forall_mem_of_all (by decide)⟩
  | inf negative =>
      rw [(print_word negative).2]
      exact List.forall_mem_append.mpr
        ⟨hsign negative, forall_mem_of_all (by decide)⟩
  | finite negative q =>
      rw [print_finite]
      exact List.forall_mem_append.mpr
        ⟨hsign negative, (graphic_printMagnitude q).not_isSpace⟩

section Read

variable {blanks rest : Bytes} (hblanks : ∀ c ∈ blanks, isSpace c = true)

include hblanks

theorem getDouble_eq (target x : Double) :
    IStream.getDouble target { rest := blanks ++ (x.print ++ rest) } =
      IStream.readDouble (x.print ++ rest) := by
  obtain ⟨c, tail, hprint⟩ := List.exists_cons_of_ne_nil (print_ne_nil x)
  have hc : isSpace c = false :=
    not_isSpace_print x c (by rw [hprint]; exact List.mem_cons_self)
  rw [hprint, List.cons_append]
  exact IStream.extract_cons _ _ hblanks hc _

theorem getDouble_print (hrest : Ends rest) (target : Double) (negative : Bool)
    {q : ℚ≥0} (hq : q < bound) :
    IStream.getDouble target
        { rest := blanks ++ ((finite negative q).print ++ rest) } =
      (finite negative (nearest (printedValue q)), { rest }) := by
  have hvalue : ¬overflows (printedValue q) := by
    apply not_overflows
    unfold printedValue
    split
    · exact zero_le
    · rename_i hne
      exact sixDigitsValue_le (pos_iff_ne_zero.mpr hne) hq
  rw [getDouble_eq hblanks, print_finite, List.append_assoc]
  exact readDouble_numeral hrest (numeral_printMagnitude q) hvalue negative

/-- The words for a NaN and for an infinity are no numbers. -/
theorem getDouble_fails (target : Double) {x : Double} (hx : x.toRat? = none)
    (rest : Bytes) :
    (IStream.getDouble target { rest := blanks ++ (x.print ++ rest) }).2.fail =
      true := by
  rw [getDouble_eq hblanks]
  cases x with
  | nan negative =>
      rw [(print_word negative).1]
      cases negative <;> rfl
  | inf negative =>
      rw [(print_word negative).2]
      cases negative <;> rfl
  | finite negative q => simp [toRat?] at hx

end Read

end HeidiKernel.Data.Double
