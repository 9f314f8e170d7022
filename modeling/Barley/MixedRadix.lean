/-
Numbers written with a different radix at each place, the greatest place first.
Digit by digit they compare as the numbers do.
-/
import Mathlib.Algebra.BigOperators.Group.List.Basic
import Mathlib.Data.List.Forall2

namespace Barley

namespace MixedRadix

/-- The number that the digits stand for. -/
def value : List Nat → List Nat → Nat
  | _ :: radices, digit :: digits =>
      digit * radices.prod + value radices digits
  | _, _ => 0

/-- Each digit is below the radix of its place. -/
abbrev Within (digits radices : List Nat) : Prop :=
  List.Forall₂ (· < ·) digits radices

variable {digits other radices : List Nat}

/-- What is less than the radix does not carry over. -/
theorem mul_add_lt {digit digit' low radix : Nat} (hdigit : digit < digit')
    (hlow : low < radix) : digit * radix + low < digit' * radix := by
  calc digit * radix + low
      < digit * radix + radix := Nat.add_lt_add_left hlow _
    _ = (digit + 1) * radix := (Nat.succ_mul _ _).symm
    _ ≤ digit' * radix := Nat.mul_le_mul_right _ hdigit

theorem value_lt_prod (h : Within digits radices) :
    value radices digits < radices.prod := by
  induction h with
  | nil => exact Nat.one_pos
  | cons hdigit _ ih =>
      rw [value, List.prod_cons]
      exact mul_add_lt hdigit ih

/-- A smaller digit outweighs all places below it. -/
theorem value_lt_of_digit_lt {digit digit' radix : Nat} (hlt : digit < digit')
    (h : Within digits radices) :
    value (radix :: radices) (digit :: digits) <
      value (radix :: radices) (digit' :: other) := by
  rw [value, value]
  exact Nat.lt_of_lt_of_le (mul_add_lt hlt (value_lt_prod h))
    (Nat.le_add_right _ _)

theorem lt_iff_value_lt (h : Within digits radices)
    (hother : Within other radices) :
    digits < other ↔ value radices digits < value radices other := by
  induction h generalizing other with
  | nil =>
      cases hother
      exact iff_of_false (List.not_lt_nil []) (Nat.lt_irrefl _)
  | @cons digit radix digits radices hdigit hdigits ih =>
      rcases hother with _ | @⟨digit', _, others, _, hdigit', hothers⟩
      rw [List.cons_lt_cons_iff]
      rcases Nat.lt_trichotomy digit digit' with hlt | rfl | hgt
      · exact iff_of_true (Or.inl hlt) (value_lt_of_digit_lt hlt hdigits)
      · have hdrop : (digit < digit ∨ digit = digit ∧ digits < others) ↔
            digits < others := by simp
        rw [hdrop, ih hothers, value, value]
        exact (Nat.add_lt_add_iff_left).symm
      · refine iff_of_false ?_
          (Nat.lt_asymm (value_lt_of_digit_lt hgt hothers))
        rintro (hlt | ⟨heq, -⟩)
        · exact Nat.lt_asymm hlt hgt
        · exact Nat.ne_of_gt hgt heq

end MixedRadix

end Barley
