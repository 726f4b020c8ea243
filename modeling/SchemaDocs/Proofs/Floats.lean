import SchemaDocs.Proofs.Numerals
import SchemaDocs.Value.Literal

/-!
# Texts of binary numbers

The digits found for a binary number are the shortest that read back as the number, and the exact magnitude is one of
the candidates, so digits that read back are always found (`nearestCode_shortest`). What is written therefore stands
for a rational number that is nearest to the binary number (`exists_digits`), and different binary numbers are
written differently (`ofCode_injective`).
-/

namespace SchemaDocs

namespace Binary64

open Numeral (AreDigits valueOf decimal magnitude)

/-! ## The shortest digits -/

/-- A natural number is the nearest one to itself. -/
theorem roundHalfEven_mul (n : Nat) {den : Nat} (h : 0 < den) : roundHalfEven (n * den) den = n := by
  rw [roundHalfEven, Nat.mul_div_cancel n h, Nat.mul_mod_left, if_pos (by omega)]

/-- A significand of full length is kept, and its shift becomes the exponent field. -/
theorem nearestCode_shifted {low den : Nat} (hlow : low < fractionLimit) (shift : Nat) (h : 0 < den) :
    nearestCode ((fractionLimit + low) * 2 ^ shift * den) den = shift * fractionLimit + (fractionLimit + low) := by
  have hlimit : fractionLimit = 2 ^ 52 := by decide
  have hlog : ((fractionLimit + low) * 2 ^ shift).log2 = 52 + shift := by
    rw [Nat.log2_eq_iff (by simp), Nat.pow_succ, Nat.pow_add, ← hlimit]
    constructor
    · exact Nat.mul_le_mul_right _ (Nat.le_add_right _ _)
    · rw [Nat.mul_right_comm]
      exact Nat.mul_lt_mul_of_pos_right (by omega) (Nat.two_pow_pos shift)
  have hshift : 52 + shift - 52 = shift := by omega
  have hround := roundHalfEven_mul (fractionLimit + low) (Nat.mul_pos h (Nat.two_pow_pos shift))
  rw [nearestCode, Nat.mul_div_cancel _ h, hlog, hshift, Nat.mul_right_comm, Nat.mul_assoc]
  exact congrArg (shift * fractionLimit + ·) hround

/-- **The magnitude of a code is nearest to the code.** -/
theorem nearestCode_units (code : Nat) {den : Nat} (h : 0 < den) : nearestCode (units code * den) den = code := by
  by_cases hsmall : code < fractionLimit
  · have hshift : code.log2 - 52 = 0 := by
      by_cases hzero : code = 0
      · simp [hzero]
      · have hlog := (Nat.log2_lt hzero (k := 52)).2 hsmall
        omega
    have hround := roundHalfEven_mul code h
    simpa [nearestCode, Nat.mul_div_cancel _ h, units, hsmall, hshift] using hround
  · obtain ⟨k, hk⟩ := Nat.exists_eq_succ_of_ne_zero (Nat.div_pos (Nat.le_of_not_lt hsmall) (by decide)).ne'
    have hcode := Nat.div_add_mod' code fractionLimit
    have hshifted := nearestCode_shifted (Nat.mod_lt code (by decide)) k h
    rw [hk, Nat.succ_mul, Nat.add_assoc] at hcode
    rw [units, if_neg hsmall, hk, Nat.succ_sub_one]
    exact hshifted.trans hcode

/-- The digits that are found read back, if the exact ones do. -/
theorem reads_shortestFrom {reads : Nat → Nat → Bool} {exact : Nat} (h : reads exact 0 = true) (dropped : Nat) :
    reads (shortestFrom reads exact dropped).1 (shortestFrom reads exact dropped).2 = true := by
  induction dropped with
  | zero => exact h
  | succ dropped ih =>
    rw [shortestFrom]
    dsimp only
    split
    · split <;> assumption
    · assumption
    · assumption
    · exact ih

/-- A power is positive. -/
theorem pow_five_pos (n : Nat) : 0 < Nat.pow 5 n := Nat.pow_pos (by decide)

theorem decimalsPerUnit_pos : 0 < decimalsPerUnit := pow_five_pos 1074

theorem nearestCode_zero : nearestCode 0 decimalsPerUnit = 0 := by
  have hzero := nearestCode_units 0 decimalsPerUnit_pos
  rwa [units, if_pos (by decide), Nat.zero_mul] at hzero

/-- The shortest digits of a code read back as the code. -/
theorem readsBack_shortest (code : Nat) : readsBack code (shortest code).1 (shortest code).2 = true := by
  apply reads_shortestFrom
  rw [readsBack, decimalUnits]
  have hexact := nearestCode_units code decimalsPerUnit_pos
  simpa using hexact

/-- The shortest digits of a code, with the places that were cut off. -/
theorem nearestCode_shortest (code : Nat) :
    nearestCode ((shortest code).1 * 10 ^ (shortest code).2) decimalsPerUnit = code :=
  eq_of_beq (readsBack_shortest code)

/-! ## The text of a code -/

/-- Digits without the zeros at their end. -/
theorem stripped_append (cs : List Char) : ∃ n,
    cs = (cs.reverse.dropWhile (· == '0')).reverse ++ List.replicate n '0' := by
  refine ⟨(cs.reverse.takeWhile (· == '0')).length, ?_⟩
  have hzeros : cs.reverse.takeWhile (· == '0') = List.replicate (cs.reverse.takeWhile (· == '0')).length '0' :=
    List.eq_replicate_of_mem fun c hc => eq_of_beq (by simpa using List.mem_takeWhile_imp hc)
  have hparts := congrArg List.reverse (List.takeWhile_append_dropWhile (p := (· == '0')) (l := cs.reverse))
  rw [List.reverse_append, List.reverse_reverse, hzeros, List.reverse_replicate] at hparts
  exact hparts.symm

variable {layout : Layout}

/-- The numeral of a code is that of digits whose value, at their place, is a natural number of decimal units that is
nearest to the code. -/
theorem exists_digits (layout : Layout) (code : Nat) : ∃ digits exponent n, AreDigits digits ∧ digits ≠ [] ∧
    layout.ofCode code = layout.numeral digits exponent ∧ nearestCode n decimalsPerUnit = code ∧
    (valueOf 10 digits : ℚ) * 10 ^ (exponent + 1 - digits.length) = n * 10 ^ (-1074 : Int) := by
  by_cases hzero : code = 0
  · have hvalue : valueOf 10 ['0'] = 0 := Numeral.valueOf_replicate 1
    refine ⟨['0'], 0, 0, Numeral.areDigits_replicate 1, by simp, if_pos hzero, ?_, ?_⟩
    · exact nearestCode_zero.trans hzero.symm
    · simp [hvalue]
  · have hnearest := nearestCode_shortest code
    rw [Layout.ofCode, if_neg hzero]
    generalize shortest code = found at hnearest ⊢
    obtain ⟨digits, dropped⟩ := found
    dsimp only at hnearest ⊢
    obtain ⟨zeros, hparts⟩ := stripped_append (decimal digits)
    generalize ((decimal digits).reverse.dropWhile (· == '0')).reverse = kept at hparts ⊢
    have hkept : AreDigits kept := fun c hc => Numeral.areDigits_decimal digits c (by simp [hparts, hc])
    have hvalue : digits = valueOf 10 kept * 10 ^ zeros := by
      rw [← Numeral.valueOf_decimal digits, hparts, Numeral.valueOf_append _ (Numeral.areDigits_replicate zeros),
        Numeral.valueOf_replicate, List.length_replicate, Nat.add_zero]
    -- without any digit left the digits would be those of zero
    have hne : kept ≠ [] := by
      rintro rfl
      rw [hvalue, valueOf, List.foldl_nil, Nat.zero_mul, Nat.zero_mul, nearestCode_zero] at hnearest
      exact hzero hnearest.symm
    have hplaces : (((decimal digits).length + dropped : Nat) : Int) - 1075 + 1 - kept.length =
        ((zeros + dropped : Nat) : Int) + -1074 := by
      rw [hparts, List.length_append, List.length_replicate]
      omega
    refine ⟨kept, _, _, hkept, hne, rfl, hnearest, ?_⟩
    rw [hplaces, zpow_add₀ (by norm_num), zpow_natCast, hvalue, pow_add]
    push_cast
    ring

/-- **The numerals of different codes are different.** -/
theorem ofCode_injective (layout : Layout) {code code' : Nat} (h : layout.ofCode code = layout.ofCode code') :
    code = code' := by
  obtain ⟨digits, exponent, n, hdigits, hne, htext, hcode, hn⟩ := exists_digits layout code
  obtain ⟨digits', exponent', n', hdigits', hne', htext', hcode', hn'⟩ := exists_digits layout code'
  rw [← layout.magnitude_numeral hdigits hne, ← htext] at hn
  rw [← layout.magnitude_numeral hdigits' hne', ← htext'] at hn'
  have hpower : (10 : ℚ) ^ (-1074 : Int) ≠ 0 := zpow_ne_zero _ (by norm_num)
  rw [h, hn'] at hn
  have hsame : n = n' := by exact_mod_cast (mul_right_cancel₀ hpower hn).symm
  subst hsame
  exact hcode.symm.trans hcode'

/-! ## The text of a number -/

def numeralChars : List Char := "0123456789.e+-".toList

theorem digit_mem_numeralChars : ∀ n < 10, Numeral.digit n ∈ numeralChars := by decide

theorem subset_numeralChars {cs : List Char} (h : AreDigits cs) : cs ⊆ numeralChars := by
  intro c hc
  obtain ⟨n, hn, rfl⟩ := h c hc
  exact digit_mem_numeralChars n hn

theorem exponentPart_subset (exponent : Int) : layout.exponentPart exponent ⊆ numeralChars := by
  have hdigits := (Numeral.areDigits_replicate (layout.exponentWidth - (decimal exponent.natAbs).length)).append
    (Numeral.areDigits_decimal exponent.natAbs)
  rw [Layout.exponentPart]
  refine List.cons_subset.2 ⟨by decide, List.cons_subset.2 ⟨?_, subset_numeralChars hdigits⟩⟩
  split <;> decide

/-- A numeral begins with a digit, holds a point or an exponent, and has no other characters than numerals have. -/
theorem numeral_chars {digits : List Char} (h : AreDigits digits) (hne : digits ≠ []) (exponent : Int) :
    (∃ n < 10, (layout.numeral digits exponent).head? = some (Numeral.digit n)) ∧
      ('.' ∈ layout.numeral digits exponent ∨ 'e' ∈ layout.numeral digits exponent) ∧
      layout.numeral digits exponent ⊆ numeralChars := by
  obtain ⟨d, rest, rfl⟩ := List.exists_cons_of_ne_nil hne
  obtain ⟨n, hn, hd⟩ := h d List.mem_cons_self
  have hdigits := subset_numeralChars h
  have hzeros (n : Nat) := subset_numeralChars (Numeral.areDigits_replicate n)
  rw [Layout.numeral]
  split
  · split
    · refine ⟨⟨0, by decide, rfl⟩, Or.inl (by simp), ?_⟩
      have hfraction := List.append_subset.2 ⟨hzeros (exponent.natAbs - 1), hdigits⟩
      exact List.cons_subset.2 ⟨by decide, List.cons_subset.2 ⟨by decide, hfraction⟩⟩
    · refine ⟨⟨n, hn, by simp [hd]⟩, Or.inl (by simp), ?_⟩
      refine List.append_subset.2 ⟨?_, List.cons_subset.2 ⟨by decide, ?_⟩⟩
      · exact List.Subset.trans (List.take_subset _ _) (List.append_subset.2 ⟨hdigits, hzeros _⟩)
      · split
        · decide
        · exact List.Subset.trans (List.drop_subset _ _) hdigits
  · refine ⟨⟨n, hn, by simp [hd]⟩, Or.inr (by simp [Layout.exponentPart]), ?_⟩
    refine List.append_subset.2 ⟨List.append_subset.2 ⟨List.Subset.trans (List.take_subset _ _) hdigits, ?_⟩,
      exponentPart_subset exponent⟩
    split
    · exact List.nil_subset _
    · exact List.cons_subset.2 ⟨by decide, List.Subset.trans (List.drop_subset _ _) hdigits⟩

theorem ofCode_chars (layout : Layout) (code : Nat) :
    (∃ n < 10, (layout.ofCode code).head? = some (Numeral.digit n)) ∧
      ('.' ∈ layout.ofCode code ∨ 'e' ∈ layout.ofCode code) ∧ layout.ofCode code ⊆ numeralChars := by
  obtain ⟨digits, exponent, -, hdigits, hne, htext, -⟩ := exists_digits layout code
  rw [htext]
  exact numeral_chars hdigits hne exponent

end Binary64

namespace Value

/-! ## The texts of numbers -/

def numberChars : List Char := Binary64.numeralChars ++ "naif".toList

theorem integer_subset (i : Int) : Numeral.integer i ⊆ '-' :: "0123456789".toList := by
  have hdigit : ∀ n < 10, Numeral.digit n ∈ '-' :: "0123456789".toList := by decide
  have hdecimal (n : Nat) : Numeral.decimal n ⊆ '-' :: "0123456789".toList := by
    intro c hc
    obtain ⟨m, hm, rfl⟩ := Numeral.areDigits_decimal n c hc
    exact hdigit m hm
  cases i with
  | ofNat n => exact hdecimal n
  | negSucc n => exact List.cons_subset.2 ⟨by decide, hdecimal (n + 1)⟩

theorem integer_ne_nil (i : Int) : Numeral.integer i ≠ [] := by
  cases i with
  | ofNat n => exact Numeral.decimal_ne_nil n
  | negSucc n => exact List.cons_ne_nil _ _

/-- The text of a number is made of the characters of such texts, and one of them tells it from an integer. -/
theorem floatLayout_text_chars (x : Binary64) : floatLayout.text x ⊆ numberChars ∧
    ∃ c ∈ floatLayout.text x, c ∉ '-' :: "0123456789".toList := by
  have hcode (code : Nat) : floatLayout.ofCode code ⊆ numberChars ∧
      ∃ c ∈ floatLayout.ofCode code, c ∉ '-' :: "0123456789".toList := by
    obtain ⟨-, hmark, hchars⟩ := Binary64.ofCode_chars floatLayout code
    refine ⟨List.Subset.trans hchars (List.subset_append_left _ _), ?_⟩
    rcases hmark with h | h
    · exact ⟨'.', h, by decide⟩
    · exact ⟨'e', h, by decide⟩
  have hsigned {cs : List Char} (h : cs ⊆ numberChars ∧ ∃ c ∈ cs, c ∉ '-' :: "0123456789".toList) :
      '-' :: cs ⊆ numberChars ∧ ∃ c ∈ '-' :: cs, c ∉ '-' :: "0123456789".toList := by
    obtain ⟨hsub, c, hc, hmark⟩ := h
    exact ⟨List.cons_subset.2 ⟨by decide, hsub⟩, c, List.mem_cons_of_mem _ hc, hmark⟩
  have hinf : "inf".toList ⊆ numberChars ∧ ∃ c ∈ "inf".toList, c ∉ '-' :: "0123456789".toList :=
    ⟨by decide, 'i', by decide, by decide⟩
  cases x with
  | nan => exact ⟨by decide, 'n', by decide, by decide⟩
  | infinite negative =>
    cases negative with
    | false => exact hinf
    | true => exact hsigned hinf
  | finite negative code =>
    cases negative with
    | false => exact hcode code
    | true => exact hsigned (hcode code)

/-- The text of a number is that of its magnitude, which does not begin with a sign, behind a minus sign if there is
one. -/
theorem floatLayout_text_cases (x : Binary64) : ∃ negative cs,
    floatLayout.text x = (if negative then ['-'] else []) ++ cs ∧ cs.head? ≠ some '-' ∧
      (x = .nan ∧ cs = "nan".toList ∨ x = .infinite negative ∧ cs = "inf".toList ∨
        ∃ code : Fin Binary64.codeLimit, x = .finite negative code ∧ cs = floatLayout.ofCode code) := by
  cases x with
  | nan => exact ⟨false, _, rfl, by decide, Or.inl ⟨rfl, rfl⟩⟩
  | infinite negative =>
    refine ⟨negative, "inf".toList, ?_, by decide, Or.inr (Or.inl ⟨rfl, rfl⟩)⟩
    cases negative <;> rfl
  | finite negative code =>
    refine ⟨negative, floatLayout.ofCode code, ?_, ?_, Or.inr (Or.inr ⟨code, rfl, rfl⟩)⟩
    · cases negative <;> rfl
    · obtain ⟨⟨n, hn, hstart⟩, -⟩ := Binary64.ofCode_chars floatLayout code
      have hdigit : ∀ n < 10, some (Numeral.digit n) ≠ some '-' := by decide
      rw [hstart]
      exact hdigit n hn

/-- A sign is told from the start of what follows it. -/
theorem signed_inj {negative negative' : Bool} {cs cs' : List Char} (hcs : cs.head? ≠ some '-')
    (hcs' : cs'.head? ≠ some '-')
    (h : (if negative then ['-'] else []) ++ cs = (if negative' then ['-'] else []) ++ cs') :
    negative = negative' ∧ cs = cs' := by
  cases negative <;> cases negative'
  · exact ⟨rfl, h⟩
  · have hsign : cs = '-' :: cs' := h
    subst hsign
    exact absurd rfl hcs
  · have hsign : '-' :: cs = cs' := h
    subst hsign
    exact absurd rfl hcs'
  · exact ⟨rfl, (List.cons.inj h).2⟩

/-- **Binary numbers are told by their texts.** -/
theorem floatLayout_text_injective {x y : Binary64} (h : floatLayout.text x = floatLayout.text y) : x = y := by
  -- a numeral begins with a digit, unlike the words
  have hword (code : Nat) {c : Char} {cs : List Char} (hc : ∀ n < 10, Numeral.digit n ≠ c) :
      c :: cs ≠ floatLayout.ofCode code := by
    intro heq
    obtain ⟨⟨n, hn, hstart⟩, -⟩ := Binary64.ofCode_chars floatLayout code
    rw [← heq] at hstart
    exact hc n hn (Option.some_inj.1 hstart).symm
  have hnan (code : Nat) : "nan".toList ≠ floatLayout.ofCode code := hword code (by decide)
  have hinf (code : Nat) : "inf".toList ≠ floatLayout.ofCode code := hword code (by decide)
  obtain ⟨negative, cs, htext, hstart, hx⟩ := floatLayout_text_cases x
  obtain ⟨negative', cs', htext', hstart', hy⟩ := floatLayout_text_cases y
  rw [htext, htext'] at h
  obtain ⟨rfl, rfl⟩ := signed_inj hstart hstart' h
  rcases hx with ⟨rfl, rfl⟩ | ⟨rfl, rfl⟩ | ⟨code, rfl, rfl⟩ <;>
    rcases hy with ⟨rfl, hcs⟩ | ⟨rfl, hcs⟩ | ⟨code', rfl, hcs⟩
  · rfl
  · exact absurd hcs (by decide)
  · exact absurd hcs (hnan _)
  · exact absurd hcs (by decide)
  · rfl
  · exact absurd hcs (hinf _)
  · exact absurd hcs.symm (hnan _)
  · exact absurd hcs.symm (hinf _)
  · rw [Fin.ext (Binary64.ofCode_injective floatLayout hcs)]

end Value

end SchemaDocs
