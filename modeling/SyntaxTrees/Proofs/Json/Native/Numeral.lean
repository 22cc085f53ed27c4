import Mathlib.Data.List.TakeWhile
import SyntaxTrees.Json.Native.Numeral
import SyntaxTrees.Proofs.Json.Grammar

/-!
# Numerals of machine words

A number that fits into a machine word is far from the numbers that are too large for a double
(`isTooLarge_eq_false`), and so is every number that its first digits name.
-/

namespace SyntaxTrees.Json

open Text

/-! ## Prefixes -/

/-- A further digit makes no number smaller. -/
theorem foldl_digits_le (digits : List Char) (n : Nat) :
    n ≤ digits.foldl (fun n c => n * 10 + digitValue c) n := by
  induction digits generalizing n with
  | nil => exact Nat.le_refl n
  | cons c digits ih =>
    have hnext := ih (n * 10 + digitValue c)
    rw [List.foldl_cons]
    omega

theorem naturalOf_le_append (front back : List Char) :
    naturalOf front ≤ naturalOf (front ++ back) := by
  rw [naturalOf, naturalOf, List.foldl_append]
  exact foldl_digits_le back _

/-! ## Size -/

/-- Digits are taken as long as the number fits into a word, and a shorter one is not larger. -/
theorem takeDigits_eq {n : Nat} {digits : List Char}
    (h : digits.foldl (fun n c => n * 10 + digitValue c) n < wordLimit) :
    takeDigits n digits = (digits.foldl (fun n c => n * 10 + digitValue c) n, 0) := by
  induction digits generalizing n with
  | nil => rfl
  | cons c digits ih =>
    -- what is read on the way fits because the result does
    have hfits := Nat.lt_of_le_of_lt (foldl_digits_le digits (n * 10 + digitValue c)) h
    rw [takeDigits, if_pos hfits, ih h, List.foldl_cons]

theorem roundToDouble_le (n : Nat) : roundToDouble n ≤ 2 * n := by
  rw [roundToDouble]
  split
  · omega
  · next hlarge =>
    have hpos : n ≠ 0 := by
      rintro rfl
      exact hlarge (Nat.two_pow_pos 53)
    -- rounding up adds at most one unit, which is no larger than the number
    have hunit : Nat.pow 2 (n.log2 - 52) ≤ n :=
      Nat.le_trans (Nat.pow_le_pow_right (by decide) (Nat.sub_le _ _)) (Nat.log2_self_le hpos)
    have hdiv : n / Nat.pow 2 (n.log2 - 52) * Nat.pow 2 (n.log2 - 52) ≤ n := Nat.div_mul_le_self _ _
    dsimp only
    split
    · rw [Nat.add_mul]
      omega
    · omega

/-- A word is not too large. -/
theorem isTooLarge_eq_false {digits : List Char} (hdigits : ∀ c ∈ digits, c.isDigit)
    (h : naturalOf digits < wordLimit) : isTooLarge digits = false := by
  have hunsigned : digits.dropWhile (· == '-') = digits := by
    cases digits with
    | nil => rfl
    | cons c rest =>
      have hc : c ≠ '-' := by
        rintro rfl
        exact absurd (hdigits '-' List.mem_cons_self) (by decide)
      simp [hc]
  have hwhole : digits.takeWhile Char.isDigit = digits := List.takeWhile_eq_self_iff.mpr hdigits
  have hrest : digits.dropWhile Char.isDigit = [] := List.dropWhile_eq_nil_iff.mpr hdigits
  -- nothing but digits that fit into a word, so no power of ten is left over
  have hvalue : takeDigits 0 digits = (naturalOf digits, 0) := takeDigits_eq h
  have hround := roundToDouble_le (naturalOf digits)
  have hfinite : 2 * wordLimit < infiniteFrom := by decide +kernel
  have hone : roundToDouble (Nat.pow 10 0) = 1 := by decide
  have hsmall : roundToDouble (naturalOf digits) * roundToDouble (Nat.pow 10 0) < infiniteFrom := by
    rw [hone]
    omega
  have hnone : naturalOf [] = 0 := rfl
  simp only [isTooLarge, hunsigned, hwhole, hrest, hvalue]
  simpa [takeDigits, hnone] using fun _ => hsmall

theorem isTooLarge_of_natural? {numeral : List Char} {n : Nat} (h : natural? numeral = some n) :
    isTooLarge numeral = false := by
  rcases natural?_eq_some_iff.mp h with ⟨⟨hdigits, hfits⟩, -⟩
  exact isTooLarge_eq_false hdigits hfits

end SyntaxTrees.Json
