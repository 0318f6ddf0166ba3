import HeidiKernel.Data.DoubleText

namespace HeidiKernel.Data

/-! Texts that a buffer can hold, and how long the texts of numbers are. -/

/-- A text of at most `n` bytes, none of which ends a C string. -/
structure Fits (n : Nat) (text : Bytes) : Prop where
  length_le : text.length ≤ n
  nonzero : ∀ b ∈ text, b ≠ 0

namespace Fits

variable {m n : Nat} {a b : Bytes}

theorem append (ha : Fits m a) (hb : Fits n b) : Fits (m + n) (a ++ b) where
  length_le := by
    rw [List.length_append]
    exact Nat.add_le_add ha.length_le hb.length_le
  nonzero := List.forall_mem_append.mpr ⟨ha.nonzero, hb.nonzero⟩

theorem mono (h : Fits m a) (hmn : m ≤ n) : Fits n a :=
  ⟨h.length_le.trans hmn, h.nonzero⟩

theorem literal (word : String) (h : (bytes word).all (· ≠ 0) = true) :
    Fits (bytes word).length (bytes word) :=
  ⟨Nat.le_refl _, forall_mem_of_all (by simpa using h)⟩

theorem chars {chars : List Char} (hlength : chars.length ≤ n)
    (h : Double.Graphic chars) : Fits n (chars.map Char.toUInt8) where
  length_le := by rwa [List.length_map]
  nonzero c hc := by
    rintro rfl
    obtain ⟨d, hd, hzero⟩ := List.mem_map.mp hc
    obtain ⟨hlow, hhigh⟩ := h d hd
    rw [UInt32.lt_iff_toNat_lt] at hlow hhigh
    have hbyte : d.val.toNat % 256 = 0 := congrArg UInt8.toNat hzero
    change 0x20 < d.val.toNat at hlow
    change d.val.toNat < 0x7f at hhigh
    omega

end Fits

/-! Integers. -/

theorem fits_toString_nat {n k : Nat} (hk : 0 < k) (h : n < 10 ^ k) :
    Fits k (bytes (toString n)) := by
  have hgraphic := Double.graphic_toDigits n
  have hlength := (Nat.length_toDigits_le_iff (b := 10) (by decide) hk).mpr h
  rw [Nat.toString_eq_ofList_toDigits, bytes_ofList fun c hc =>
    UInt32.le_of_lt (hgraphic c hc).2]
  exact .chars hlength hgraphic

theorem fits_toString_uint64 (n : UInt64) : Fits 20 (bytes (toString n)) := by
  have hsize := n.toNat_lt
  exact fits_toString_nat (n := n.toNat) (by decide) (by omega)

theorem fits_toString_int32 (n : Int32) : Fits 11 (bytes (toString n)) := by
  have hlow := n.le_toInt
  have hhigh := n.toInt_lt
  change Fits 11 (bytes (toString n.toInt))
  generalize n.toInt = i at hlow hhigh
  cases i with
  | ofNat k =>
      rw [Int.ofNat_eq_natCast] at hhigh
      exact (fits_toString_nat (n := k) (k := 10) (by decide) (by omega)).mono
        (by decide)
  | negSucc k =>
      have hminus : Fits 1 (bytes "-") := ⟨by decide +kernel, by decide +kernel⟩
      have hdigits : Fits 10 (bytes (toString (k + 1))) :=
        fits_toString_nat (by decide) (by omega)
      have htext : bytes (toString (Int.negSucc k)) =
          bytes "-" ++ bytes (toString (k + 1)) := bytes_append ..
      rw [htext]
      exact hminus.append hdigits

/-! Doubles. -/

namespace Double

/-- The magnitudes a double can have. -/
def InRange : Double → Prop
  | .nan _ | .inf _ => True
  | .finite _ q => q = 0 ∨ (smallestUnit ≤ q ∧ q < bound)

theorem inRange_ofNNRat (negative : Bool) (q : ℚ≥0) :
    (ofNNRat negative q).InRange := by
  unfold ofNNRat
  split_ifs with hoverflow
  · trivial
  · rw [overflows, not_le] at hoverflow
    rcases eq_or_ne q 0 with rfl | hq
    · left
      exact if_pos rfl
    · have hnearest : nearest q =
          roundAt (max (lastPlace q) smallestUnit) q := if_neg hq
      rw [hnearest] at hoverflow
      unfold InRange
      rw [hnearest]
      rcases Nat.eq_zero_or_pos
          (roundHalfEven (q / max (lastPlace q) smallestUnit)) with hzero | hpos
      · left
        rw [roundAt, hzero, Nat.cast_zero, zero_mul]
      · right
        refine ⟨?_, hoverflow⟩
        have hone : (1 : ℚ≥0) ≤
            roundHalfEven (q / max (lastPlace q) smallestUnit) := by
          exact_mod_cast hpos
        calc smallestUnit ≤ max (lastPlace q) smallestUnit := le_max_right _ _
          _ = 1 * max (lastPlace q) smallestUnit := (one_mul _).symm
          _ ≤ roundAt (max (lastPlace q) smallestUnit) q :=
            mul_le_mul_of_nonneg_right hone zero_le

theorem inRange_div (x y : Double) : (x.div y).InRange := by
  cases x with
  | nan negative => trivial
  | inf s =>
      cases y with
      | nan negative => trivial
      | inf t => trivial
      | finite t q => trivial
  | finite s p =>
      cases y with
      | nan negative => trivial
      | inf t => exact .inl rfl
      | finite t q =>
          simp only [div]
          split_ifs
          · exact inRange_ofNNRat _ _
          · trivial
          · trivial

theorem length_pointed_le (fraction : List Char) :
    (pointed fraction).length ≤ fraction.length + 1 := by
  have hkept := (List.rdropWhile_prefix (· = '0') fraction).length_le
  unfold pointed
  dsimp only
  split_ifs
  · exact Nat.zero_le _
  · rw [List.length_cons]
    omega

theorem neg_log_le {q : ℚ≥0} (h : smallestUnit ≤ q) : -324 ≤ Int.log 10 q := by
  have hpos : 0 < q := lt_of_lt_of_le (zpow_pos two_pos _) h
  rw [← Int.zpow_le_iff_le_log (by norm_num) hpos]
  refine le_trans ?_ h
  have hnat : ((2 ^ 1074 : Nat) : ℚ≥0) ≤ (10 ^ 324 : Nat) :=
    Nat.cast_le.mpr (by decide +kernel)
  rw [smallestUnit, zpow_neg, zpow_neg, zpow_ofNat, zpow_ofNat]
  apply inv_anti₀ (pow_pos two_pos _)
  simpa only [Nat.cast_pow, Nat.cast_ofNat] using hnat

theorem sixDigits_power {q : ℚ≥0} (hlow : smallestUnit ≤ q)
    (hhigh : q < bound) : (sixDigits q).2.natAbs < 10 ^ 3 := by
  have hpos : 0 < q := lt_of_lt_of_le (zpow_pos two_pos _) hlow
  have hlog := neg_log_le hlow
  have hlog' := log_lt hpos hhigh
  unfold sixDigits
  dsimp only
  split_ifs
  · dsimp only
    omega
  · dsimp only
    omega

theorem length_printMagnitude_le {q : ℚ≥0}
    (h : q = 0 ∨ (smallestUnit ≤ q ∧ q < bound)) :
    (printMagnitude q).length ≤ 12 := by
  unfold printMagnitude
  split_ifs with hzero
  · decide
  · obtain ⟨hlow, hhigh⟩ := h.resolve_left hzero
    have hpos : 0 < q := pos_iff_ne_zero.mpr hzero
    obtain ⟨hsix, hmillion⟩ := sixDigits_bounds hpos
    have hlength := length_sixDigits hsix hmillion
    have hpower := sixDigits_power hlow hhigh
    generalize sixDigits q = digits at hlength hpower
    obtain ⟨n, power⟩ := digits
    dsimp only at hlength hpower ⊢
    have hexponent := (Nat.length_toDigits_le_iff (b := 10) (k := 3)
      (by decide) (by decide)).mpr hpower
    split_ifs with hfixed hsmall hnegative hshort
    · have hpointed :=
        length_pointed_le ((Nat.toDigits 10 n).drop (power.toNat + 1))
      rw [List.length_drop] at hpointed
      rw [List.length_append, List.length_take]
      omega
    · have hpointed := length_pointed_le
        (List.replicate (-power - 1).toNat '0' ++ Nat.toDigits 10 n)
      rw [List.length_append, List.length_replicate] at hpointed
      rw [List.length_cons]
      omega
    all_goals
      have hpointed := length_pointed_le ((Nat.toDigits 10 n).drop 1)
      rw [List.length_drop] at hpointed
      simp only [List.length_append, List.length_take, List.length_cons,
        List.length_nil]
      omega

/-- A sign, six digits with a point, and an exponent of three digits. -/
theorem fits_print {x : Double} (h : x.InRange) : Fits 13 x.print := by
  have hsign : ∀ negative, Fits 1 (signText negative) := by
    rintro (_ | _)
    · exact ⟨by decide, by decide +kernel⟩
    · exact ⟨by decide, by decide +kernel⟩
  cases x with
  | nan negative =>
      rw [(print_word negative).1]
      exact ((hsign negative).append (n := 3)
        ⟨by decide, by decide +kernel⟩).mono
        (by decide)
  | inf negative =>
      rw [(print_word negative).2]
      exact ((hsign negative).append (n := 3)
        ⟨by decide, by decide +kernel⟩).mono
        (by decide)
  | finite negative q =>
      rw [print_finite]
      exact (hsign negative).append
        (.chars (length_printMagnitude_le h) (graphic_printMagnitude q))

end Double

end HeidiKernel.Data
