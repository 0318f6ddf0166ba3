import HeidiKernel.Data.Output

namespace HeidiKernel.Data.Numeric

/-! Decimal integer literals: an optional sign and digits, and nothing else. -/

structure DigitText (digits : Bytes) : Prop where
  nonempty : digits ≠ []
  all : ∀ c ∈ digits, isDigit c = true

inductive Literal : Bytes → Int → Prop
  | unsigned {digits : Bytes} (h : DigitText digits) :
      Literal digits (natOfDigits 10 digits)
  | plus {digits : Bytes} (h : DigitText digits) :
      Literal (0x2b :: digits) (natOfDigits 10 digits)
  | minus {digits : Bytes} (h : DigitText digits) :
      Literal (0x2d :: digits) (-natOfDigits 10 digits)

theorem Literal.print (n : Nat) : Literal (Numeric.print 10 n) n := by
  have h := Literal.unsigned ⟨print_ne_nil 10 n, isDigit_print n⟩
  rwa [natOfDigits_print (by decide) (by decide)] at h

/-! What the readers make of a literal. -/

theorem readDecimal?_sign {sign : UInt8} (hsign : isSpace sign = false)
    {negative : Bool} {digits : Bytes} (h : DigitText digits)
    (hread : readSign (sign :: digits) = (negative, digits)) :
    readDecimal? (sign :: digits) = some (negative, natOfDigits 10 digits) := by
  have hskip : (sign :: digits).dropWhile isSpace = sign :: digits :=
    List.dropWhile_cons_of_neg (by simp [hsign])
  have hall : digits.takeWhile isDigit = digits :=
    List.takeWhile_eq_self_iff.mpr h.all
  rw [readDecimal?, hskip, hread]
  simp only [hall]
  exact if_neg h.nonempty

theorem Literal.readDecimal? {text : Bytes} {n : Int} (h : Literal text n) :
    ∃ negative m, Numeric.readDecimal? text = some (negative, m) ∧
      n = if negative then -(m : Int) else m := by
  cases h with
  | unsigned h =>
      have hread := readDecimal?_digits (List.forall_mem_nil _) h.all h.nonempty
        isDigit_head?_nil
      rw [List.nil_append, List.append_nil] at hread
      exact ⟨false, _, hread, rfl⟩
  | plus h => exact ⟨false, _, readDecimal?_sign rfl h rfl, rfl⟩
  | minus h => exact ⟨true, _, readDecimal?_sign rfl h rfl, rfl⟩

theorem Literal.stoi {text : Bytes} {n : Int} (h : Literal text n)
    {value : Int32} (hvalue : Numeric.stoi text = .ok value) :
    value.toInt = n := by
  obtain ⟨negative, m, hread, hn⟩ := h.readDecimal?
  rw [Numeric.stoi, hread] at hvalue
  simp only [← hn] at hvalue
  split at hvalue
  · rename_i hrange
    obtain rfl := Except.ok.inj hvalue
    exact Int32.toInt_ofInt_of_le hrange.1 hrange.2
  · cases hvalue

/-- A negative literal wraps. -/
theorem Literal.stoull {text : Bytes} {n : Int} (h : Literal text n)
    {value : UInt64} (hvalue : Numeric.stoull text = .ok value) :
    (value.toNat : Int) = n ↔ 0 ≤ n := by
  obtain ⟨negative, m, hread, rfl⟩ := h.readDecimal?
  rw [Numeric.stoull, hread] at hvalue
  simp only at hvalue
  split at hvalue
  · rename_i hsmall
    obtain rfl := Except.ok.inj hvalue
    have hofNat : (UInt64.ofNat m).toNat = m := by
      rw [UInt64.toNat_ofNat', Nat.mod_eq_of_lt hsmall]
    cases negative with
    | false =>
        exact iff_of_true (congrArg Nat.cast hofNat) (Int.natCast_nonneg m)
    | true =>
        have hneg : (-UInt64.ofNat m).toNat = (2 ^ 64 - m) % 2 ^ 64 := by
          rw [UInt64.toNat_neg, hofNat]
          rfl
        simp only [if_true, hneg]
        omega
  · cases hvalue

end HeidiKernel.Data.Numeric
