/-
Sums of words whose carry comes round to the low end, and the residues that they
keep.
-/
import Mathlib.Algebra.BigOperators.Group.List.Basic
import Mathlib.Data.Nat.ModEq
import Mathlib.Tactic.Ring

namespace Barley

namespace EndAround

/-- One sum of two words; `top` is the greatest word. -/
def add (top a b : Nat) : Nat :=
  if a + b ≤ top then a + b else a + b - top

def sum (top : Nat) (words : List Nat) : Nat :=
  words.foldl (add top) 0

/-- One round of bringing the carry of a long sum to its low end. -/
def carry (top total : Nat) : Nat :=
  total % (top + 1) + total / (top + 1)

/-- The word is what becomes of the total once no carry is left. -/
structure Reduces (top total word : Nat) : Prop where
  le_top : word ≤ top
  congr : word ≡ total [MOD top]
  eq_zero_iff : word = 0 ↔ total = 0

variable {top total word : Nat}

theorem carry_congr (top total : Nat) : carry top total ≡ total [MOD top] := by
  have hsplit : total = carry top total + top * (total / (top + 1)) := by
    calc total
        = total % (top + 1) + (top + 1) * (total / (top + 1)) :=
          (Nat.mod_add_div total (top + 1)).symm
      _ = carry top total + top * (total / (top + 1)) := by
          rw [carry]
          ring
  have h : (carry top total + top * (total / (top + 1))) % top =
      carry top total % top := Nat.add_mul_mod_self_left ..
  rw [← hsplit] at h
  exact h.symm

theorem carry_eq_zero_iff (top total : Nat) :
    carry top total = 0 ↔ total = 0 := by
  constructor
  · intro h
    obtain ⟨hmod, hdiv⟩ := Nat.add_eq_zero_iff.mp h
    have hsplit := Nat.mod_add_div total (top + 1)
    rw [hmod, hdiv, Nat.mul_zero, Nat.zero_add] at hsplit
    exact hsplit.symm
  · rintro rfl
    rw [carry, Nat.zero_mod, Nat.zero_div]

/-- Two rounds are enough for a total of two words' length. -/
theorem carry_carry_le (htotal : total < (top + 1) * (top + 1)) :
    carry top (carry top total) ≤ top := by
  have hmod : total % (top + 1) ≤ top :=
    Nat.lt_succ_iff.mp (Nat.mod_lt total (Nat.succ_pos top))
  have hdiv : total / (top + 1) ≤ top :=
    Nat.lt_succ_iff.mp (Nat.div_lt_of_lt_mul htotal)
  have hfirst : carry top total ≤ top + top := Nat.add_le_add hmod hdiv
  by_cases hlow : carry top total < top + 1
  · rw [carry, Nat.mod_eq_of_lt hlow, Nat.div_eq_of_lt hlow]
    exact Nat.lt_succ_iff.mp hlow
  · have hhigh : carry top total / (top + 1) = 1 :=
      Nat.div_eq_of_lt_le (by omega) (by omega)
    have hrest := Nat.mod_add_div (carry top total) (top + 1)
    rw [hhigh, Nat.mul_one] at hrest
    rw [carry, hhigh]
    omega

theorem Reduces.carry_carry (htotal : total < (top + 1) * (top + 1)) :
    Reduces top total (carry top (carry top total)) where
  le_top := carry_carry_le htotal
  congr := (carry_congr top _).trans (carry_congr top total)
  eq_zero_iff := (carry_eq_zero_iff top _).trans (carry_eq_zero_iff top total)

theorem Reduces.zero (top : Nat) : Reduces top 0 0 :=
  ⟨Nat.zero_le top, rfl, Iff.rfl⟩

theorem Reduces.add (h : Reduces top total word) {next : Nat}
    (hnext : next ≤ top) :
    Reduces top (total + next) (add top word next) := by
  have hword := h.le_top
  have hzero := h.eq_zero_iff
  have hcongr := h.congr.add_right next
  rw [EndAround.add]
  by_cases hfits : word + next ≤ top
  · rw [if_pos hfits]
    exact ⟨hfits, hcongr, by omega⟩
  · rw [if_neg hfits]
    refine ⟨by omega, ?_, by omega⟩
    have hback : word + next - top + top ≡ word + next - top [MOD top] :=
      Nat.add_mod_right ..
    rw [Nat.sub_add_cancel (Nat.le_of_not_le hfits)] at hback
    exact hback.symm.trans hcongr

/-- A sum with the carries brought round reduces the plain one. -/
theorem Reduces.sum {words : List Nat} (hwords : ∀ w ∈ words, w ≤ top) :
    Reduces top words.sum (sum top words) := by
  suffices h : ∀ total word, Reduces top total word →
      Reduces top (total + words.sum) (words.foldl (EndAround.add top) word) by
    have h' := h 0 0 (Reduces.zero top)
    rwa [Nat.zero_add] at h'
  induction words with
  | nil => exact fun _ _ h => h
  | cons next rest ih =>
      intro total word h
      rw [List.sum_cons, ← Nat.add_assoc]
      exact ih (fun w hw => hwords w (List.mem_cons_of_mem next hw)) _ _
        (h.add (hwords next List.mem_cons_self))

/-- Only a total that is not zero reaches the greatest word. -/
theorem Reduces.eq_top_iff (h : Reduces top total word) (htop : 0 < top)
    (htotal : total ≠ 0) : word = top ↔ total ≡ 0 [MOD top] := by
  have hword : word ≠ 0 := fun hzero => htotal (h.eq_zero_iff.mp hzero)
  constructor
  · rintro rfl
    exact h.congr.symm.trans (Nat.mod_self word)
  · intro hcongr
    have hdvd : top ∣ word :=
      Nat.modEq_zero_iff_dvd.mp (h.congr.trans hcongr)
    exact Nat.le_antisymm h.le_top
      (Nat.le_of_dvd (Nat.pos_of_ne_zero hword) hdvd)

/-- The complement of a word cancels exactly the totals that it reduces to. -/
theorem Reduces.complement_iff (h : Reduces top total word) (other : Nat) :
    (top - word) + other ≡ 0 [MOD top] ↔ total ≡ other [MOD top] := by
  have hcancel : top - word + word ≡ 0 [MOD top] := by
    rw [Nat.sub_add_cancel h.le_top]
    exact Nat.mod_self top
  constructor
  · intro hother
    exact h.congr.symm.trans
      (Nat.ModEq.add_left_cancel' (top - word) (hcancel.trans hother.symm))
  · intro htotal
    exact ((h.congr.trans htotal).symm.add_left (top - word)).trans hcancel

end EndAround

end Barley
