import Brainfuck.Text.Numeral
import Mathlib.Data.Nat.Digits.Defs

/-!
What numerals say. A numeral is read as the number its digits denote in the decimal system, with
the lowest digit last; leading zeros do not matter.

Main statement: a text is read as a number just when it is a numeral of it. The usual decimal text
of a number is one.
-/

namespace Brainfuck.Text

/-- The text is a numeral of `n`: an optional plus sign and at least one digit, with a value below
the 64th power of two. -/
def Denotes (cs : List Char) (n : Nat) : Prop :=
  ∃ sign digits, cs = sign ++ digits ∧ (sign = [] ∨ sign = ['+']) ∧ digits ≠ [] ∧
    (∀ c ∈ digits, '0' ≤ c ∧ c ≤ '9') ∧
    n = Nat.ofDigits 10 (digits.reverse.map fun c => c.toNat - '0'.toNat) ∧ n < 2 ^ 64

theorem digitsValue_eq_ofDigits (cs : List Char) :
    digitsValue cs = Nat.ofDigits 10 (cs.reverse.map fun c => c.toNat - '0'.toNat) := by
  rw [digitsValue, List.foldl_eq_foldr_reverse, Nat.ofDigits_eq_foldr, List.foldr_map]
  simp only [Nat.cast_id, Nat.add_comm]

theorem readDigits?_eq_some_iff {cs : List Char} {n : Nat} :
    readDigits? cs = some n ↔ cs ≠ [] ∧ (∀ c ∈ cs, '0' ≤ c ∧ c ≤ '9') ∧
      n = Nat.ofDigits 10 (cs.reverse.map fun c => c.toNat - '0'.toNat) ∧ n < 2 ^ 64 := by
  have hbound : numeralBound = 2 ^ 64 := by decide
  rw [← digitsValue_eq_ofDigits, ← hbound]
  simp only [readDigits?, Bool.and_eq_true, Bool.not_eq_true', List.isEmpty_eq_false_iff,
    List.all_eq_true, isDigit, decide_eq_true_eq]
  constructor
  · intro h
    split at h
    · next hdigits =>
        cases h
        exact ⟨hdigits.1.1, hdigits.1.2, rfl, hdigits.2⟩
    · cases h
  · intro h
    obtain ⟨hne, hdigits, rfl, hlt⟩ := h
    exact if_pos ⟨⟨hne, hdigits⟩, hlt⟩

theorem plus_not_digit {rest : List Char} :
    ¬ ∀ c ∈ '+' :: rest, '0' ≤ c ∧ c ≤ '9' := by
  intro h
  exact absurd (h '+' List.mem_cons_self) (by decide)

theorem denotes_plus_iff {rest : List Char} {n : Nat} :
    Denotes ('+' :: rest) n ↔ readDigits? rest = some n := by
  rw [readDigits?_eq_some_iff]
  constructor
  · intro h
    obtain ⟨sign, digits, htext, hsign, hdigits⟩ := h
    cases hsign with
    | inl hnone =>
        subst hnone
        rw [List.nil_append] at htext
        subst htext
        exact absurd hdigits.2.1 plus_not_digit
    | inr hplus =>
        subst hplus
        cases htext
        exact hdigits
  · intro h
    exact ⟨['+'], rest, rfl, .inr rfl, h⟩

theorem denotes_iff_of_no_plus {cs : List Char} (hplus : ∀ rest, cs ≠ '+' :: rest) {n : Nat} :
    Denotes cs n ↔ readDigits? cs = some n := by
  rw [readDigits?_eq_some_iff]
  constructor
  · intro h
    obtain ⟨sign, digits, htext, hsign, hdigits⟩ := h
    cases hsign with
    | inl hnone =>
        subst hnone
        cases htext
        exact hdigits
    | inr hsome =>
        subst hsome
        exact absurd htext (hplus digits)
  · intro h
    exact ⟨[], cs, rfl, .inl rfl, h⟩

theorem readNumeral?_eq_some_iff {cs : List Char} {n : Nat} :
    readNumeral? cs = some n ↔ Denotes cs n := by
  unfold readNumeral?
  split
  · exact denotes_plus_iff.symm
  · next hplus => exact (denotes_iff_of_no_plus fun rest h => hplus rest h).symm

theorem readNumeral?_eq_none_iff {cs : List Char} :
    readNumeral? cs = none ↔ ∀ n, ¬ Denotes cs n := by
  rw [Option.eq_none_iff_forall_ne_some]
  simp only [ne_eq, readNumeral?_eq_some_iff]

theorem mem_toString {n : Nat} {c : Char} (hc : c ∈ (toString n).toList) :
    '0' ≤ c ∧ c ≤ '9' := by
  rw [Nat.toString_eq_repr, Nat.toList_repr] at hc
  have hdigit := Nat.isDigit_of_mem_toDigits (by decide) (by decide) hc
  simpa [Char.isDigit, Char.le_def] using hdigit

theorem denotes_toString {n : Nat} (h : n < 2 ^ 64) : Denotes (toString n).toList n := by
  refine ⟨[], (toString n).toList, rfl, .inl rfl, ?_, fun c => mem_toString, ?_, h⟩
  · rw [Nat.toString_eq_repr, Nat.toList_repr]
    exact Nat.toDigits_ne_nil
  · rw [← digitsValue_eq_ofDigits, Nat.toString_eq_repr, Nat.toList_repr, digitsValue,
      ← Nat.ofDigitChars_eq_foldl, Nat.ofDigitChars_ten_toDigits]

end Brainfuck.Text
