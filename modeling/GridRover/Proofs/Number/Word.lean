import GridRover.Number.Literal
import Mathlib.Algebra.Order.Ring.Int

/-!
# Literals of any length as words

Reading a literal digit by digit in word arithmetic stops at the first digit with which the
number outgrows a word. All further digits lead on in the same direction, so the reading
has a result exactly when the whole number fits, and it is that number.
-/
namespace GridRover.Number

/-- A magnitude on the side of a sign. -/
def onSide : Bool → Nat → Int
  | true, n => -n
  | false, n => n

theorem wordLimit_eq : wordLimit = 2 ^ 63 := rfl

theorem word?_of_fits {n : Int} (h : -2 ^ 63 ≤ n ∧ n < 2 ^ 63) : word? n = some n := by
  rw [word?, wordLimit_eq, if_neg (by omega), if_neg (by omega)]

theorem word?_of_exceeds {n : Int} (h : ¬ (-2 ^ 63 ≤ n ∧ n < 2 ^ 63)) : word? n = none := by
  by_cases hlow : n < -2 ^ 63
  · rw [word?, wordLimit_eq, if_pos hlow]
  · rw [word?, wordLimit_eq, if_neg hlow, if_pos (by omega)]

theorem word?_eq_some_iff {n k : Int} : word? n = some k ↔ n = k ∧ -2 ^ 63 ≤ n ∧ n < 2 ^ 63 := by
  by_cases h : -2 ^ 63 ≤ n ∧ n < 2 ^ 63
  · rw [word?_of_fits h, Option.some.injEq, and_iff_left h]
  · simp only [word?_of_exceeds h, reduceCtorEq, h, and_false]

theorem previousWord?_eq_some_iff {n k : Int} :
    previousWord? n = some k ↔ n - 1 = k ∧ -2 ^ 63 < n := by
  rw [previousWord?, Option.ite_none_left_eq_some, wordLimit_eq, Option.some.injEq, Int.not_le,
    and_comm]

/-- A word ten times as far from zero, and further on by a digit, is checked once for both. -/
theorem appendDigit?_onSide (negative : Bool) (n : Nat) (c : Char) :
    appendDigit? negative (onSide negative n) c = word? (onSide negative (10 * n + digitValue c)) := by
  by_cases h : -2 ^ 63 ≤ 10 * onSide negative n ∧ 10 * onSide negative n < 2 ^ 63
  · simp only [appendDigit?, word?_of_fits h, Option.bind_eq_bind, Option.bind_some]
    congr 1
    cases negative <;> simp only [onSide, if_true, Bool.false_eq_true, if_false] <;> omega
  · have hnext : ¬ (-2 ^ 63 ≤ onSide negative (10 * n + digitValue c) ∧
        onSide negative (10 * n + digitValue c) < 2 ^ 63) := by
      cases negative <;> simp only [onSide] at h ⊢ <;> omega
    simp only [appendDigit?, word?_of_exceeds h, word?_of_exceeds hnext, Option.bind_eq_bind,
      Option.bind_none]

theorem le_foldl_digits (digits : List Char) (n : Nat) :
    n ≤ digits.foldl (fun n c => 10 * n + digitValue c) n := by
  induction digits generalizing n with
  | nil => exact Nat.le_refl n
  | cons c digits ih =>
    have hrest := ih (10 * n + digitValue c)
    rw [List.foldl_cons]
    omega

/-- A number that exceeds a word exceeds it still when it is further from zero. -/
theorem word?_onSide_of_le {negative : Bool} {n k : Nat} (hle : n ≤ k)
    (h : word? (onSide negative n) = none) : word? (onSide negative k) = none := by
  by_cases hk : -2 ^ 63 ≤ onSide negative k ∧ onSide negative k < 2 ^ 63
  · have hn : -2 ^ 63 ≤ onSide negative n ∧ onSide negative n < 2 ^ 63 := by
      cases negative <;> simp only [onSide] at hk ⊢ <;> omega
    rw [word?_of_fits hn] at h
    cases h
  · exact word?_of_exceeds hk

theorem foldlM_appendDigit? (negative : Bool) (digits : List Char) (n : Nat)
    (h : word? (onSide negative n) = some (onSide negative n)) :
    digits.foldlM (appendDigit? negative) (onSide negative n) =
      word? (onSide negative (digits.foldl (fun n c => 10 * n + digitValue c) n)) := by
  induction digits generalizing n with
  | nil => exact h.symm
  | cons c digits ih =>
    rw [List.foldlM_cons, appendDigit?_onSide, List.foldl_cons]
    cases hnext : word? (onSide negative (10 * n + digitValue c)) with
    | none => exact (word?_onSide_of_le (le_foldl_digits digits _) hnext).symm
    | some next =>
      obtain rfl : _ = next := (word?_eq_some_iff.mp hnext).1
      exact ih _ hnext

/-- A literal is read as its number if this fits a word. -/
theorem wordOf?_eq (negative : Bool) (digits : List Char) :
    wordOf? negative digits = word? (onSide negative (naturalOf digits)) := by
  have hzero : onSide negative 0 = 0 := by cases negative <;> rfl
  have hread := foldlM_appendDigit? negative digits 0 (by rw [hzero]; rfl)
  rw [hzero] at hread
  exact hread

/-- The word that a literal counts as is the one nearest to its number. -/
theorem wordOf?_getD (negative : Bool) (digits : List Char) :
    (wordOf? negative digits).getD (outermostWord negative) =
      max (-2 ^ 63) (min (onSide negative (naturalOf digits)) (2 ^ 63 - 1)) := by
  rw [wordOf?_eq]
  by_cases h : -2 ^ 63 ≤ onSide negative (naturalOf digits) ∧
      onSide negative (naturalOf digits) < 2 ^ 63
  · rw [word?_of_fits h, Option.getD_some]
    omega
  · rw [word?_of_exceeds h, Option.getD_none, outermostWord, wordLimit_eq]
    cases negative <;> simp only [onSide, if_true, Bool.false_eq_true, if_false] at h ⊢ <;> omega

end GridRover.Number
