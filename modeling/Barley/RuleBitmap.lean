/-
Rule bitmaps of the packet classifier: `SIZE` words of `LENGTH` bits, one bit
for each slot of the filter array.  Rule `i` is bit `i % LENGTH` of word
`SIZE - 1 - i / LENGTH`, so a bitmap is read as the set of rules it holds.
-/
import Mathlib.Data.Fintype.Pi
import Mathlib.Data.Finset.Lattice.Basic
import Mathlib.Tactic.Common

namespace Barley

/-- `LENGTH`, the number of bits of one word. -/
def rfcLength : Nat := 32

/-- `SIZE`, the number of words of one bitmap. -/
def rfcSize : Nat := 64

/-- `MPP_MAX_FILTERS`, the number of slots of the filter array and of the
class lists. -/
def mppMaxFilters : Nat := 2048

/-- `unsigned int cbm[SIZE]`. -/
abbrev Bmp := Fin rfcSize → BitVec rfcLength

/-- The word that holds rule `i`; rules are numbered below
`mppMaxFilters`. -/
def bmpWord (i : Nat) : Fin rfcSize :=
  ⟨rfcSize - 1 - i / rfcLength, by simp only [rfcSize, rfcLength]; omega⟩

/-- The cleared bitmap every sweep starts from. -/
def zeroBmp : Bmp := fun _ => 0

/-- The word with the single bit `pos` set, shifted up from `1`. -/
def tempInt (pos : Nat) : BitVec rfcLength := BitVec.ofNat rfcLength 1 <<< pos

/-- Set or clear the bit of rule `i`. -/
def setBmpBit (tbmp : Bmp) (i : Nat) (value : Bool) : Bmp :=
  let k := bmpWord i
  let pos := i % rfcLength
  if value then Function.update tbmp k (tbmp k ||| tempInt pos)
  else Function.update tbmp k (tbmp k &&& ~~~ tempInt pos)

/-- Word by word comparison. -/
def compareBmp (abmp bbmp : Bmp) : Bool :=
  (List.finRange rfcSize).all fun i => abmp i == bbmp i

/-- The word by word intersection formed for every cell of a later phase. -/
def intersectBmp (abmp bbmp : Bmp) : Bmp := fun m => abmp m &&& bbmp m

/-- The rule with the highest priority: words are scanned from the last one
down and bits from the lowest one up.  An empty bitmap yields the last slot
of the filter array. -/
def getRuleCost (tbmp : Bmp) : Nat :=
  ((List.range rfcSize).findSome? fun d =>
    (List.range rfcLength).findSome? fun pos =>
      if tbmp (bmpWord (rfcLength * d)) &&& tempInt pos ≠ 0 then
        some (rfcLength * d + pos)
      else none).getD (mppMaxFilters - 1)

/-- Bit `i` of a bitmap. -/
def testBmp (tbmp : Bmp) (i : Nat) : Bool :=
  (tbmp (bmpWord i)).getLsbD (i % rfcLength)

/-- The set of rules a bitmap stands for. -/
def bmpRules (tbmp : Bmp) : Finset Nat :=
  (Finset.range mppMaxFilters).filter fun i => testBmp tbmp i

theorem mem_bmpRules {tbmp : Bmp} {i : Nat} :
    i ∈ bmpRules tbmp ↔ i < mppMaxFilters ∧ testBmp tbmp i = true := by
  simp [bmpRules]

theorem bmpWord_eq_iff {i j : Nat} (hi : i < mppMaxFilters)
    (hj : j < mppMaxFilters) :
    bmpWord i = bmpWord j ↔ i / rfcLength = j / rfcLength := by
  simp only [bmpWord, Fin.mk.injEq, rfcSize, rfcLength, mppMaxFilters] at *
  omega

theorem compareBmp_iff (abmp bbmp : Bmp) :
    compareBmp abmp bbmp = true ↔ abmp = bbmp := by
  simp only [compareBmp, List.all_eq_true, List.mem_finRange, beq_iff_eq,
    forall_const]
  exact funext_iff.symm

@[simp] theorem testBmp_zeroBmp (i : Nat) : testBmp zeroBmp i = false := by
  simp [testBmp, zeroBmp]

@[simp] theorem bmpRules_zeroBmp : bmpRules zeroBmp = ∅ := by
  simp [bmpRules]

theorem rfcLength_pos : 0 < rfcLength := by decide

theorem getLsbD_tempInt (i : Nat) {pos : Nat} (hpos : pos < rfcLength) :
    (tempInt i).getLsbD pos = decide (i = pos) := by
  rw [tempInt, BitVec.getLsbD_shiftLeft, BitVec.getLsbD_one]
  simp only [hpos, rfcLength_pos, decide_true, Bool.true_and]
  by_cases hlt : pos < i
  · simp [hlt, Nat.ne_of_gt hlt]
  · simp only [hlt, decide_false, Bool.not_false, Bool.true_and,
      decide_eq_decide]
    omega

/-- Writing one bit leaves every other bit alone. -/
theorem testBmp_setBmpBit (tbmp : Bmp) (value : Bool) {i j : Nat}
    (hi : i < mppMaxFilters) (hj : j < mppMaxFilters) :
    testBmp (setBmpBit tbmp i value) j =
      if i = j then value else testBmp tbmp j := by
  have hpos : j % rfcLength < rfcLength := Nat.mod_lt _ rfcLength_pos
  have hsame : i = j ↔ bmpWord i = bmpWord j ∧
      i % rfcLength = j % rfcLength := by
    rw [bmpWord_eq_iff hi hj]
    simp only [rfcLength]
    omega
  by_cases hword : bmpWord i = bmpWord j
  · cases value with
    | true =>
        simp only [setBmpBit, testBmp, if_true, hword, Function.update_self,
          BitVec.getLsbD_or, getLsbD_tempInt _ hpos, hsame, true_and]
        by_cases heq : i % rfcLength = j % rfcLength
        · rw [if_pos heq, decide_eq_true heq, Bool.or_true]
        · rw [if_neg heq, decide_eq_false heq, Bool.or_false]
    | false =>
        simp only [setBmpBit, testBmp, Bool.false_eq_true, if_false, hword,
          Function.update_self, BitVec.getLsbD_and, BitVec.getLsbD_not,
          getLsbD_tempInt _ hpos, hsame, true_and, hpos, decide_true,
          Bool.true_and]
        by_cases heq : i % rfcLength = j % rfcLength
        · rw [if_pos heq, decide_eq_true heq, Bool.not_true, Bool.and_false]
        · rw [if_neg heq, decide_eq_false heq, Bool.not_false, Bool.and_true]
  · have hne : ¬ i = j := fun heq => hword (hsame.mp heq).1
    have hother : bmpWord j ≠ bmpWord i := fun h => hword h.symm
    cases value with
    | true =>
        simp only [setBmpBit, testBmp, if_true, hne, if_false,
          Function.update_of_ne hother]
    | false =>
        simp only [setBmpBit, testBmp, Bool.false_eq_true, hne, if_false,
          Function.update_of_ne hother]

/-- Two bitmaps that hold the same rules are equal word by word. -/
theorem bmpRules_injective : Function.Injective bmpRules := by
  intro abmp bbmp hrules
  funext m
  apply BitVec.eq_of_getLsbD_eq
  intro pos hpos
  have hlt : rfcLength * (rfcSize - 1 - m) + pos < mppMaxFilters := by
    have := m.isLt
    simp only [rfcLength, rfcSize, mppMaxFilters] at *
    omega
  have hword : bmpWord (rfcLength * (rfcSize - 1 - m) + pos) = m := by
    apply Fin.ext
    have := m.isLt
    simp only [bmpWord, rfcLength, rfcSize] at *
    omega
  have hmod : (rfcLength * (rfcSize - 1 - m) + pos) % rfcLength = pos := by
    rw [Nat.mul_add_mod, Nat.mod_eq_of_lt hpos]
  have hmem := Finset.ext_iff.mp hrules (rfcLength * (rfcSize - 1 - m) + pos)
  simp only [mem_bmpRules, hlt, true_and, testBmp, hword, hmod] at hmem
  exact Bool.eq_iff_iff.mpr hmem

@[simp] theorem bmpRules_intersectBmp (abmp bbmp : Bmp) :
    bmpRules (intersectBmp abmp bbmp) = bmpRules abmp ∩ bmpRules bbmp := by
  ext i
  simp only [mem_bmpRules, Finset.mem_inter, testBmp, intersectBmp,
    BitVec.getLsbD_and, Bool.and_eq_true]
  tauto

theorem and_tempInt_ne_zero (word : BitVec rfcLength) {pos : Nat}
    (hpos : pos < rfcLength) :
    word &&& tempInt pos ≠ 0 ↔ word.getLsbD pos = true := by
  constructor
  · intro hne
    by_contra hbit
    apply hne
    apply BitVec.eq_of_getLsbD_eq
    intro other hother
    rw [BitVec.getLsbD_and, getLsbD_tempInt _ hother]
    by_cases heq : pos = other
    · subst heq
      simpa using hbit
    · simp [heq]
  · intro hbit hzero
    have htest := congrArg (fun w => w.getLsbD pos) hzero
    simp [BitVec.getLsbD_and, getLsbD_tempInt _ hpos, hbit] at htest

theorem testBmp_mul_add (tbmp : Bmp) (d : Nat) {pos : Nat}
    (hpos : pos < rfcLength) :
    tbmp (bmpWord (rfcLength * d)) &&& tempInt pos ≠ 0 ↔
      testBmp tbmp (rfcLength * d + pos) = true := by
  have hword : bmpWord (rfcLength * d + pos) = bmpWord (rfcLength * d) := by
    simp only [bmpWord, rfcLength] at *
    congr 2
    omega
  rw [and_tempInt_ne_zero _ hpos, testBmp, hword, Nat.mul_add_mod,
    Nat.mod_eq_of_lt hpos]

theorem findSome?_range_of_first {B : Type} {f : Nat → Option B}
    {n k : Nat} {found : B} (hk : k < n) (hfound : f k = some found)
    (hfirst : ∀ j < k, f j = none) :
    (List.range n).findSome? f = some found := by
  induction n with
  | zero => exact absurd hk (Nat.not_lt_zero k)
  | succ n ih =>
      rw [List.range_succ, List.findSome?_append]
      rcases Nat.lt_succ_iff_lt_or_eq.mp hk with hlt | rfl
      · rw [ih hlt, Option.some_or]
      · have hnone : (List.range k).findSome? f = none := by
          rw [List.findSome?_eq_none_iff]
          intro j hj
          exact hfirst j (List.mem_range.mp hj)
        simp [hnone, hfound]

/-- The scan returns the lowest rule of the bitmap. -/
theorem getRuleCost_of_lowest {tbmp : Bmp} {i : Nat} (hmem : i ∈ bmpRules tbmp)
    (hlowest : ∀ j < i, j ∉ bmpRules tbmp) : getRuleCost tbmp = i := by
  obtain ⟨hi, htest⟩ := mem_bmpRules.mp hmem
  have hclear : ∀ j < i, ¬ testBmp tbmp j = true := fun j hj hbit =>
    hlowest j hj (mem_bmpRules.mpr ⟨Nat.lt_trans hj hi, hbit⟩)
  have hsplit : rfcLength * (i / rfcLength) + i % rfcLength = i :=
    Nat.div_add_mod i rfcLength
  have hpos : i % rfcLength < rfcLength := Nat.mod_lt _ rfcLength_pos
  have hd : i / rfcLength < rfcSize := by
    simp only [rfcLength, rfcSize, mppMaxFilters] at *
    omega
  have hscan : ((List.range rfcSize).findSome? fun d =>
      (List.range rfcLength).findSome? fun pos =>
        if tbmp (bmpWord (rfcLength * d)) &&& tempInt pos ≠ 0 then
          some (rfcLength * d + pos)
        else none) = some i := by
    apply findSome?_range_of_first hd
    · -- the word of `i`: its lower bits are clear
      apply findSome?_range_of_first hpos
      · rw [if_pos ((testBmp_mul_add tbmp _ hpos).mpr (hsplit.symm ▸ htest)),
          hsplit]
      · intro pos hlt
        rw [if_neg]
        rw [testBmp_mul_add tbmp _ (Nat.lt_trans hlt hpos)]
        exact hclear _ (by omega)
    · -- the words scanned before it are empty
      intro d hlt
      rw [List.findSome?_eq_none_iff]
      intro pos hmempos
      have hposlt := List.mem_range.mp hmempos
      rw [if_neg]
      rw [testBmp_mul_add tbmp _ hposlt]
      apply hclear
      simp only [rfcLength] at *
      omega
  rw [getRuleCost, hscan, Option.getD_some]

theorem getRuleCost_of_empty {tbmp : Bmp} (hempty : bmpRules tbmp = ∅) :
    getRuleCost tbmp = mppMaxFilters - 1 := by
  have hnone : ((List.range rfcSize).findSome? fun d =>
      (List.range rfcLength).findSome? fun pos =>
        if tbmp (bmpWord (rfcLength * d)) &&& tempInt pos ≠ 0 then
          some (rfcLength * d + pos)
        else none) = none := by
    rw [List.findSome?_eq_none_iff]
    intro d hd
    rw [List.findSome?_eq_none_iff]
    intro pos hpos
    have hdlt := List.mem_range.mp hd
    have hposlt := List.mem_range.mp hpos
    rw [if_neg]
    rw [testBmp_mul_add tbmp d hposlt]
    intro htest
    have hmem : rfcLength * d + pos ∈ bmpRules tbmp := by
      refine mem_bmpRules.mpr ⟨?_, htest⟩
      simp only [rfcLength, rfcSize, mppMaxFilters] at *
      omega
    simp [hempty] at hmem
  rw [getRuleCost, hnone, Option.getD_none]

end Barley
