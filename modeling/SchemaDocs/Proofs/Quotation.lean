import Mathlib.Tactic.SplitIfs
import SchemaDocs.Json.Reader
import SchemaDocs.Proofs.Splitting
import SchemaDocs.Text.Quoted

/-!
# Quoted texts

A quoted text is read back up to its closing quotation mark (`Json.stringUnits?_quoted`), whatever stands in the text
and behind it, so it tells the text (`Text.quotedList_append_inj`). It is one line: no control character stands in it
(`Text.isPlain_quotedList`).
-/

namespace SchemaDocs

namespace Json

/-- The escape of a control character is read back as its code unit. -/
theorem hexFour?_hexFixed {n : Nat} (h : n < 32) :
    ∃ a b c d, Numeral.hexFixed 4 n = [a, b, c, d] ∧ hexFour? a b c d = some n := by
  have hread : ∀ n < 32, hexFour? (Numeral.digit (n / 16 / 16 / 16 % 16)) (Numeral.digit (n / 16 / 16 % 16))
      (Numeral.digit (n / 16 % 16)) (Numeral.digit (n % 16)) = some n := by decide
  exact ⟨_, _, _, _, rfl, hread n h⟩

/-- What stands for a character inside a quoted text is read back as the code unit of the character. -/
theorem stringUnits?_quotedChar (c : Char) {cs rest : List Char} {units : List Nat}
    (h : stringUnits? cs = some (units, rest)) :
    stringUnits? (Text.quotedChar c ++ cs) = some (c.toNat :: units, rest) := by
  unfold Text.quotedChar
  split_ifs with hquote hslash hfeed hreturn htab hform hback hcontrol
  · subst hquote
    simp [stringUnits?, escaped?, h]
  · subst hslash
    simp [stringUnits?, escaped?, h]
  · subst hfeed
    simp [stringUnits?, escaped?, h]
  · subst hreturn
    simp [stringUnits?, escaped?, h]
  · subst htab
    simp [stringUnits?, escaped?, h]
  · subst hform
    simp [stringUnits?, escaped?, h]
  · subst hback
    simp [stringUnits?, escaped?, h]
  · obtain ⟨x, y, z, w, hhex, hread⟩ := hexFour?_hexFixed hcontrol
    simp [hhex, stringUnits?, hread, h]
  · simp [stringUnits?, hslash, hcontrol, h]

/-- **A quoted text is read back up to its closing quotation mark.** -/
theorem stringUnits?_quoted (cs rest : List Char) :
    stringUnits? (cs.flatMap Text.quotedChar ++ '"' :: rest) = some (cs.map Char.toNat, rest) := by
  induction cs with
  | nil => simp [stringUnits?]
  | cons c cs ih =>
    rw [List.flatMap_cons, List.append_assoc, List.map_cons]
    exact stringUnits?_quotedChar c ih

end Json

namespace Text

/-- A quoted text is told by its characters, and so is what follows it. -/
theorem quotedList_append_inj {cs cs' rest rest' : List Char} (h : quotedList cs ++ rest = quotedList cs' ++ rest') :
    cs = cs' ∧ rest = rest' := by
  simp only [quotedList, List.cons_append, List.append_assoc, List.nil_append, List.cons_inj_right] at h
  have hread := congrArg Json.stringUnits? h
  rw [Json.stringUnits?_quoted, Json.stringUnits?_quoted, Option.some_inj, Prod.mk.injEq] at hread
  exact ⟨List.map_inj_right (fun _ _ => Char.toNat_inj.1) |>.1 hread.1, hread.2⟩

/-! ## Control characters -/

/-- The text holds no control characters, so none that ends a line. -/
def IsPlain (cs : List Char) : Prop := ∀ c ∈ cs, 0x20 ≤ c.toNat

instance (cs : List Char) : Decidable (IsPlain cs) := List.decidableBAll (fun c : Char => 0x20 ≤ c.toNat) cs

theorem IsPlain.append {cs ds : List Char} (h : IsPlain cs) (hd : IsPlain ds) : IsPlain (cs ++ ds) :=
  List.forall_mem_append.2 ⟨h, hd⟩

theorem isPlain_nil : IsPlain [] := fun _ hc => absurd hc List.not_mem_nil

theorem isPlain_cons {c : Char} {cs : List Char} : IsPlain (c :: cs) ↔ 0x20 ≤ c.toNat ∧ IsPlain cs :=
  List.forall_mem_cons

theorem isPlain_joinList {sep : List Char} (hsep : IsPlain sep) : ∀ {pieces : List (List Char)},
    (∀ piece ∈ pieces, IsPlain piece) → IsPlain (joinList sep pieces)
  | [], _ => isPlain_nil
  | piece :: pieces, h => by
    rw [joinList_cons]
    refine (h piece List.mem_cons_self).append fun c hc => ?_
    obtain ⟨next, hnext, hc⟩ := List.mem_flatMap.1 hc
    exact hsep.append (h next (List.mem_cons_of_mem _ hnext)) c hc

theorem isPlain_hexFixed : ∀ width n : Nat, IsPlain (Numeral.hexFixed width n)
  | 0, _ => isPlain_nil
  | width + 1, n => by
    have hdigits : ∀ n < 16, 0x20 ≤ (Numeral.digit n).toNat := by decide
    exact (isPlain_hexFixed width (n / 16)).append
      (isPlain_cons.2 ⟨hdigits _ (Nat.mod_lt _ (by decide)), isPlain_nil⟩)

/-- What stands for a character inside a quoted text holds no control characters. -/
theorem isPlain_quotedChar (c : Char) : IsPlain (quotedChar c) := by
  have hpair {d : Char} (hd : 0x20 ≤ d.toNat) : IsPlain ['\\', d] :=
    isPlain_cons.2 ⟨by decide, isPlain_cons.2 ⟨hd, isPlain_nil⟩⟩
  unfold quotedChar
  split_ifs with _ _ _ _ _ _ _ hcontrol
  · exact hpair (by decide)
  · exact hpair (by decide)
  · exact hpair (by decide)
  · exact hpair (by decide)
  · exact hpair (by decide)
  · exact hpair (by decide)
  · exact hpair (by decide)
  · exact isPlain_cons.2 ⟨by decide, isPlain_cons.2 ⟨by decide, isPlain_hexFixed 4 c.toNat⟩⟩
  · exact isPlain_cons.2 ⟨by omega, isPlain_nil⟩

/-- **A quoted text holds no control characters.** -/
theorem isPlain_quotedList (cs : List Char) : IsPlain (quotedList cs) := by
  have hbody : IsPlain (cs.flatMap quotedChar) := by
    intro x hx
    obtain ⟨c, -, hx⟩ := List.mem_flatMap.1 hx
    exact isPlain_quotedChar c x hx
  exact IsPlain.append (isPlain_cons.2 ⟨by decide, hbody⟩) (by decide)

end Text

end SchemaDocs
