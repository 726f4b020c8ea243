import Mathlib.Algebra.Order.Field.Rat
import Mathlib.Data.List.TakeWhile
import Mathlib.Tactic.Ring
import SchemaDocs.Binary64.Decimal

/-!
# The numbers of numerals

A numeral of decimal digits, with a point and an exponent or without them, stands for a rational number (`magnitude`).
The digits of a natural number stand for the number (`valueOf_decimal`), so integers are told by their texts
(`integer_injective`), and the layouts of a binary number only place the point: what they write stands for the digits
they are given, the first of them at the place of the exponent (`Layout.magnitude_numeral`).
-/

namespace SchemaDocs

namespace Numeral

/-! ## Digits -/

def AreDigits (cs : List Char) : Prop := ∀ c ∈ cs, ∃ n < 10, c = digit n

theorem digitValue?_digit : ∀ n < 10, digitValue? (digit n) = some n := by decide

theorem ne_of_digits {cs : List Char} (h : AreDigits cs) {d : Char} (hd : ∀ n < 10, digit n ≠ d) :
    ∀ c ∈ cs, c ≠ d := by
  intro c hc heq
  obtain ⟨n, hn, rfl⟩ := h c hc
  exact hd n hn heq

theorem AreDigits.append {cs ds : List Char} (h : AreDigits cs) (hd : AreDigits ds) : AreDigits (cs ++ ds) :=
  List.forall_mem_append.2 ⟨h, hd⟩

theorem areDigits_replicate (n : Nat) : AreDigits (List.replicate n '0') := by
  intro c hc
  exact ⟨0, by decide, List.eq_of_mem_replicate hc⟩

theorem areDigits_decimal (n : Nat) : AreDigits (decimal n) := by
  induction n using decimal.induct with
  | case1 n h =>
    rw [decimal, if_pos h]
    intro c hc
    exact ⟨n, h, List.mem_singleton.1 hc⟩
  | case2 n h ih =>
    rw [decimal, if_neg h]
    refine ih.append fun c hc => ⟨n % 10, by omega, List.mem_singleton.1 hc⟩

theorem decimal_ne_nil (n : Nat) : decimal n ≠ [] := by
  rw [decimal]
  split <;> simp

/-- One more digit behind a numeral. -/
theorem valueOf_concat (cs : List Char) {n : Nat} (h : n < 10) :
    valueOf 10 (cs ++ [digit n]) = valueOf 10 cs * 10 + n := by
  simp [valueOf, digitValue?_digit n h]

/-- Digits that follow move the number before them up by their places. -/
theorem valueOf_append (cs : List Char) : ∀ {ds : List Char}, AreDigits ds →
    valueOf 10 (cs ++ ds) = valueOf 10 cs * 10 ^ ds.length + valueOf 10 ds
  | [], _ => by simp [valueOf]
  | d :: ds, h => by
    obtain ⟨⟨n, hn, rfl⟩, hds⟩ := List.forall_mem_cons.1 h
    have hfirst : valueOf 10 [digit n] = n := by simpa [valueOf] using valueOf_concat [] hn
    rw [List.append_cons, valueOf_append (cs ++ [digit n]) hds, valueOf_concat cs hn, ← List.singleton_append,
      valueOf_append [digit n] hds, hfirst, List.singleton_append, List.length_cons, pow_succ]
    ring

/-- A character that is no digit is passed over. -/
theorem valueOf_append_cons {c : Char} (h : digitValue? c = none) (cs ds : List Char) :
    valueOf 10 (cs ++ c :: ds) = valueOf 10 (cs ++ ds) := by
  simp [valueOf, h]

theorem valueOf_replicate (n : Nat) : valueOf 10 (List.replicate n '0') = 0 := by
  induction n with
  | zero => rfl
  | succ n ih =>
    have hdigit : ['0'] = [digit 0] := rfl
    rw [List.replicate_succ', hdigit, valueOf_concat _ (by decide), ih]

/-- **The digits of a number stand for the number.** -/
theorem valueOf_decimal (n : Nat) : valueOf 10 (decimal n) = n := by
  induction n using decimal.induct with
  | case1 n h =>
    rw [decimal, if_pos h]
    simp [valueOf, digitValue?_digit n h]
  | case2 n h ih =>
    rw [decimal, if_neg h, valueOf_concat _ (by omega), ih]
    omega

/-- **Integers are told by their numerals.** -/
theorem integer_injective {i j : Int} (h : integer i = integer j) : i = j := by
  have hsign (n m : Nat) : decimal n ≠ '-' :: decimal m := by
    intro heq
    refine ne_of_digits (areDigits_decimal n) (by decide : ∀ n < 10, digit n ≠ '-') '-' ?_ rfl
    rw [heq]
    exact List.mem_cons_self
  have hvalue {n m : Nat} (heq : decimal n = decimal m) : n = m := by
    rw [← valueOf_decimal n, heq, valueOf_decimal]
  cases i with
  | ofNat n =>
    cases j with
    | ofNat m => rw [hvalue h]
    | negSucc m => exact absurd h (hsign n (m + 1))
  | negSucc n =>
    cases j with
    | ofNat m => exact absurd h.symm (hsign m (n + 1))
    | negSucc m =>
      have hsucc := hvalue (List.cons.inj h).2
      rw [Nat.succ.inj hsucc]

/-! ## The number of a numeral -/

/-- The number that a sign and digits stand for; a plus sign is passed over. -/
def signedValue : List Char → Int
  | '-' :: cs => -(valueOf 10 cs : Int)
  | cs => valueOf 10 cs

/-- The number that a numeral stands for: its digits before the letter of the exponent, as many places lower as there
are digits behind the point, and as many places higher as the exponent says. -/
def magnitude (cs : List Char) : ℚ :=
  let front := cs.takeWhile (· != 'e')
  let fraction := (front.dropWhile (· != '.')).drop 1
  valueOf 10 front * 10 ^ (signedValue ((cs.dropWhile (· != 'e')).drop 1) - fraction.length)

/-- A list cut at the first place of a character. -/
theorem cut_at {c : Char} {front : List Char} (h : ∀ d ∈ front, d ≠ c) (back : List Char) :
    (front ++ c :: back).takeWhile (· != c) = front ∧ (front ++ c :: back).dropWhile (· != c) = c :: back := by
  have hpos : ∀ d ∈ front, (d != c) = true := fun d hd => bne_iff_ne.2 (h d hd)
  rw [List.takeWhile_append_of_pos hpos, List.dropWhile_append_of_pos hpos]
  simp

theorem cut_nowhere {c : Char} {cs : List Char} (h : ∀ d ∈ cs, d ≠ c) :
    cs.takeWhile (· != c) = cs ∧ cs.dropWhile (· != c) = [] := by
  have hpos : ∀ d ∈ cs, (d != c) = true := fun d hd => bne_iff_ne.2 (h d hd)
  exact ⟨List.takeWhile_eq_self_iff.2 hpos, List.dropWhile_eq_nil_iff.2 hpos⟩

variable {whole fraction digits : List Char}

/-- A numeral with a point. -/
theorem magnitude_point (hw : AreDigits whole) (hf : AreDigits fraction) :
    magnitude (whole ++ '.' :: fraction) = valueOf 10 (whole ++ fraction) * 10 ^ (-(fraction.length : Int)) := by
  have hdigits : ∀ d ∈ whole ++ '.' :: fraction, d ≠ 'e' := by
    simp only [List.forall_mem_append, List.forall_mem_cons]
    exact ⟨ne_of_digits hw (by decide), by decide, ne_of_digits hf (by decide)⟩
  have hcut := cut_nowhere hdigits
  have hpoint := cut_at (ne_of_digits hw (by decide : ∀ n < 10, digit n ≠ '.')) fraction
  rw [magnitude, hcut.1, hcut.2, hpoint.2, valueOf_append_cons (by decide)]
  simp [signedValue, valueOf]

/-- A numeral with an exponent. -/
theorem magnitude_exponent {front : List Char} (h : ∀ d ∈ front, d ≠ 'e') (exponent : List Char) :
    magnitude (front ++ 'e' :: exponent) = valueOf 10 front *
      10 ^ (signedValue exponent - ((front.dropWhile (· != '.')).drop 1).length) := by
  have hcut := cut_at h exponent
  rw [magnitude, hcut.1, hcut.2]
  rfl

end Numeral

namespace Binary64

open Numeral (AreDigits valueOf decimal magnitude)

variable (layout : Layout)

/-! ## The number of a layout -/

/-- The exponent part stands for the exponent. -/
theorem Layout.exponentPart_eq (exponent : Int) : ∃ cs, layout.exponentPart exponent = 'e' :: cs ∧
    Numeral.signedValue cs = exponent := by
  refine ⟨_, rfl, ?_⟩
  have hvalue (n : Nat) (m : Nat) : valueOf 10 (List.replicate n '0' ++ decimal m) = m := by
    rw [Numeral.valueOf_append _ (Numeral.areDigits_decimal m), Numeral.valueOf_replicate, Numeral.valueOf_decimal]
    omega
  split
  · rw [Numeral.signedValue, hvalue]
    omega
  · have hplus (cs : List Char) : valueOf 10 ('+' :: cs) = valueOf 10 cs := by
      simpa using Numeral.valueOf_append_cons (c := '+') (by decide) [] cs
    rw [Numeral.signedValue, hplus, hvalue]
    · omega
    · simp

/-- A numeral without an exponent below one. -/
theorem magnitude_below {digits : List Char} (h : AreDigits digits) {exponent : Int} (hneg : exponent < 0) :
    magnitude ('0' :: '.' :: (List.replicate (exponent.natAbs - 1) '0' ++ digits)) =
      valueOf 10 digits * 10 ^ (exponent + 1 - digits.length) := by
  have hzeros := Numeral.areDigits_replicate (exponent.natAbs - 1)
  have hvalue : valueOf 10 (['0'] ++ (List.replicate (exponent.natAbs - 1) '0' ++ digits)) = valueOf 10 digits := by
    have hfront := Numeral.valueOf_replicate (exponent.natAbs - 1 + 1)
    rw [← List.append_assoc, Numeral.valueOf_append _ h, List.singleton_append, ← List.replicate_succ, hfront]
    omega
  have hplaces : -((List.replicate (exponent.natAbs - 1) '0' ++ digits).length : Int) =
      exponent + 1 - digits.length := by
    simp only [List.length_append, List.length_replicate]
    omega
  have hpoint := Numeral.magnitude_point (Numeral.areDigits_replicate 1) (hzeros.append h)
  rwa [List.replicate_one, hvalue, hplaces] at hpoint

/-- A numeral with a point whose digits are followed by zeros. -/
theorem magnitude_padded {whole fraction digits : List Char} {n : Nat} (hw : AreDigits whole) (hf : AreDigits fraction)
    (h : whole ++ fraction = digits ++ List.replicate n '0') :
    magnitude (whole ++ '.' :: fraction) = valueOf 10 digits * 10 ^ ((n : Int) - fraction.length) := by
  rw [Numeral.magnitude_point hw hf, h, Numeral.valueOf_append _ (Numeral.areDigits_replicate n),
    Numeral.valueOf_replicate, List.length_replicate, sub_eq_add_neg, zpow_add₀ (by norm_num), zpow_natCast]
  push_cast
  ring

/-- A numeral without an exponent from one on. -/
theorem magnitude_above {digits : List Char} (h : AreDigits digits) (places : Nat) :
    magnitude ((digits ++ List.replicate (places + 1 - digits.length) '0').take (places + 1) ++
      '.' :: (if (digits.drop (places + 1)).isEmpty then ['0'] else digits.drop (places + 1))) =
      valueOf 10 digits * 10 ^ ((places : Int) + 1 - digits.length) := by
  have hpadded := h.append (Numeral.areDigits_replicate (places + 1 - digits.length))
  have hwhole : AreDigits ((digits ++ List.replicate (places + 1 - digits.length) '0').take (places + 1)) :=
    fun c hc => hpadded c (List.mem_of_mem_take hc)
  by_cases hlength : digits.length ≤ places + 1
  · have hzero : AreDigits ['0'] := Numeral.areDigits_replicate 1
    have htake : (digits ++ List.replicate (places + 1 - digits.length) '0').take (places + 1) =
        digits ++ List.replicate (places + 1 - digits.length) '0' := by
      apply List.take_of_length_le
      simp only [List.length_append, List.length_replicate]
      omega
    have hdigits : (digits ++ List.replicate (places + 1 - digits.length) '0') ++ ['0'] =
        digits ++ List.replicate (places + 1 - digits.length + 1) '0' := by
      rw [List.append_assoc, List.replicate_succ']
    have hplaces : ((places + 1 - digits.length + 1 : Nat) : Int) - ['0'].length =
        (places : Int) + 1 - digits.length := by
      simp only [List.length_singleton]
      omega
    rw [htake] at hwhole ⊢
    rw [List.drop_eq_nil_of_le hlength, List.isEmpty_nil, if_pos rfl,
      magnitude_padded hwhole hzero hdigits, hplaces]
  · have hzeros : places + 1 - digits.length = 0 := by omega
    have hfraction : AreDigits (digits.drop (places + 1)) := fun c hc => h c (List.mem_of_mem_drop hc)
    have hne : (digits.drop (places + 1)).isEmpty = false := by
      simp only [List.isEmpty_eq_false_iff, ne_eq, List.drop_eq_nil_iff]
      omega
    have hdigits : digits.take (places + 1) ++ digits.drop (places + 1) = digits ++ List.replicate 0 '0' := by simp
    have hplaces : ((0 : Nat) : Int) - (digits.drop (places + 1)).length = (places : Int) + 1 - digits.length := by
      rw [List.length_drop]
      omega
    rw [hzeros, List.replicate_zero, List.append_nil] at hwhole ⊢
    rw [hne, if_neg Bool.false_ne_true, magnitude_padded hwhole hfraction hdigits, hplaces]

/-- **A numeral stands for its digits, the first of which is at the place of the exponent.** -/
theorem Layout.magnitude_numeral {digits : List Char} (h : AreDigits digits) (hne : digits ≠ []) (exponent : Int) :
    magnitude (layout.numeral digits exponent) = valueOf 10 digits * 10 ^ (exponent + 1 - digits.length) := by
  obtain ⟨d, rest, rfl⟩ := List.exists_cons_of_ne_nil hne
  rw [Layout.numeral]
  split
  · split
    · next hneg => exact magnitude_below h hneg
    · next hneg =>
      have habove := magnitude_above h exponent.toNat
      rwa [Int.toNat_of_nonneg (by omega)] at habove
  · obtain ⟨cs, hpart, hvalue⟩ := layout.exponentPart_eq exponent
    have hletters := Numeral.ne_of_digits h (by decide : ∀ n < 10, Numeral.digit n ≠ 'e')
    have hpoints := Numeral.ne_of_digits h (by decide : ∀ n < 10, Numeral.digit n ≠ '.')
    rw [List.forall_mem_cons] at hletters hpoints
    simp only [List.take_succ_cons, List.take_zero, List.drop_succ_cons, List.drop_zero, hpart]
    cases rest with
    | nil =>
      have hfront : ∀ c ∈ [d], c ≠ 'e' := List.forall_mem_singleton.2 hletters.1
      have hcut := Numeral.cut_nowhere (List.forall_mem_singleton.2 hpoints.1)
      rw [List.isEmpty_nil, if_pos rfl, List.append_nil, Numeral.magnitude_exponent hfront, hcut.2, hvalue]
      simp
    | cons c rest =>
      have hfront : ∀ x ∈ [d] ++ '.' :: c :: rest, x ≠ 'e' := by
        simp only [List.singleton_append, List.forall_mem_cons] at hletters ⊢
        exact ⟨hletters.1, by decide, hletters.2⟩
      have hcut := Numeral.cut_at (List.forall_mem_singleton.2 hpoints.1) (c :: rest)
      have hplaces : exponent - ((c :: rest).length : Int) = exponent + 1 - (d :: c :: rest).length := by
        simp only [List.length_cons]
        omega
      rw [List.isEmpty_cons, if_neg Bool.false_ne_true, Numeral.magnitude_exponent hfront, hcut.2, hvalue,
        Numeral.valueOf_append_cons (by decide), List.drop_one, List.tail_cons, hplaces]
      rfl

end Binary64

end SchemaDocs
