/-
A bucket of a fixed number of slots, each vacant or holding one item.  An item
goes into the first vacant slot, and is looked for slot by slot.
-/
import Mathlib.Data.Finset.Card
import Mathlib.Data.Finset.Range
import Mathlib.Logic.Function.Basic
import Mathlib.Data.List.Range

namespace Barley

namespace SlotBucket

variable {K : Type} [DecidableEq K] (vacant : K) (size : Nat)

/-- The first slot that holds the item. -/
def lookup (slots : Nat → K) (item : K) : Option Nat :=
  (List.range size).find? fun i => slots i = item

/-- The first slot that is vacant or holds the item. -/
def firstFit (slots : Nat → K) (item : K) : Option Nat :=
  (List.range size).find? fun i => slots i = vacant ∨ slots i = item

/-- No item is in two slots. -/
def Distinct (slots : Nat → K) : Prop :=
  ∀ i < size, ∀ j < size, slots i = slots j → slots i ≠ vacant → i = j

/-- The number of slots that hold an item. -/
def occupied (slots : Nat → K) : Nat :=
  ((Finset.range size).filter fun i => slots i ≠ vacant).card

variable {vacant size} {slots : Nat → K} {item other : K} {i : Nat}

theorem lookup_eq_none_iff :
    lookup size slots item = none ↔ ∀ i < size, slots i ≠ item := by
  simp [lookup, List.find?_eq_none]

theorem lookup_some (h : lookup size slots item = some i) :
    i < size ∧ slots i = item := by
  rw [lookup] at h
  have hmem := List.mem_of_find?_eq_some h
  have hslot := List.find?_some h
  exact ⟨List.mem_range.mp hmem, of_decide_eq_true hslot⟩

/-- An item that is in one slot at most is found in its slot. -/
theorem Distinct.lookup_eq_some_iff (h : Distinct vacant size slots)
    (hitem : item ≠ vacant) :
    lookup size slots item = some i ↔ i < size ∧ slots i = item := by
  refine ⟨lookup_some, ?_⟩
  rintro ⟨hi, hslot⟩
  cases hlookup : lookup size slots item with
  | none => exact absurd hslot (lookup_eq_none_iff.mp hlookup i hi)
  | some j =>
      obtain ⟨hj, hslot'⟩ := lookup_some hlookup
      rw [h j hj i hi (hslot'.trans hslot.symm) (hslot' ▸ hitem)]

theorem firstFit_eq_none_iff :
    firstFit vacant size slots item = none ↔
      ∀ i < size, slots i ≠ vacant ∧ slots i ≠ item := by
  simp [firstFit, List.find?_eq_none]

theorem firstFit_some (h : firstFit vacant size slots item = some i) :
    i < size ∧ (slots i = vacant ∨ slots i = item) := by
  rw [firstFit] at h
  have hmem := List.mem_of_find?_eq_some h
  have hslot := List.find?_some h
  exact ⟨List.mem_range.mp hmem, of_decide_eq_true hslot⟩

/-- The slots before the first fit hold other items. -/
theorem firstFit_first (h : firstFit vacant size slots item = some i) :
    ∀ j < i, slots j ≠ vacant ∧ slots j ≠ item := by
  rw [firstFit, List.find?_range_eq_some] at h
  intro j hj
  have hother := h.2.2 j hj
  rwa [Bool.not_eq_true', decide_eq_false_iff_not, not_or] at hother

section Fill

variable (hi : i < size) (hvacant : slots i = vacant) (hitem : item ≠ vacant)

include hi hvacant hitem

theorem occupied_fill :
    occupied vacant size (Function.update slots i item) =
      occupied vacant size slots + 1 := by
  have hinsert : (Finset.range size).filter
      (fun j => Function.update slots i item j ≠ vacant) =
      insert i ((Finset.range size).filter fun j => slots j ≠ vacant) := by
    ext j
    rw [Finset.mem_insert, Finset.mem_filter, Finset.mem_filter]
    by_cases hj : j = i
    · subst hj
      simp [hi, hitem]
    · simp [hj]
  rw [occupied, occupied, hinsert, Finset.card_insert_of_notMem]
  rw [Finset.mem_filter]
  exact fun h => h.2 hvacant

omit [DecidableEq K] in
/-- Filling a slot keeps the items apart exactly when the item was not there. -/
theorem distinct_fill_iff (h : Distinct vacant size slots) :
    Distinct vacant size (Function.update slots i item) ↔
      ∀ j < size, slots j ≠ item := by
  constructor
  · intro hdistinct j hj hslot
    have hne : j ≠ i := by
      rintro rfl
      exact hitem (hslot.symm.trans hvacant)
    refine hne (hdistinct j hj i hi ?_ ?_)
    · rw [Function.update_of_ne hne, Function.update_self, hslot]
    · rwa [Function.update_of_ne hne, hslot]
  · intro habsent j hj k hk heq hne
    by_cases hji : j = i
    · by_cases hki : k = i
      · rw [hji, hki]
      · rw [hji, Function.update_self, Function.update_of_ne hki] at heq
        exact absurd heq.symm (habsent k hk)
    · rw [Function.update_of_ne hji] at heq hne
      by_cases hki : k = i
      · rw [hki, Function.update_self] at heq
        exact absurd heq (habsent j hj)
      · rw [Function.update_of_ne hki] at heq
        exact h j hj k hk heq hne

end Fill

section Clear

variable (hi : i < size) (hslot : slots i ≠ vacant)

include hi hslot

theorem occupied_clear :
    occupied vacant size (Function.update slots i vacant) + 1 =
      occupied vacant size slots := by
  have hvacant : Function.update slots i vacant i = vacant :=
    Function.update_self i vacant slots
  rw [← occupied_fill hi hvacant hslot, Function.update_idem,
    Function.update_eq_self]

omit [DecidableEq K] in
omit hi hslot in
theorem Distinct.clear (h : Distinct vacant size slots) :
    Distinct vacant size (Function.update slots i vacant) := by
  intro j hj k hk heq hne
  have hji : j ≠ i := by
    rintro rfl
    exact hne (Function.update_self j vacant slots)
  rw [Function.update_of_ne hji] at heq hne
  have hki : k ≠ i := by
    rintro rfl
    exact hne (heq.trans (Function.update_self k vacant slots))
  rw [Function.update_of_ne hki] at heq
  exact h j hj k hk heq hne

end Clear

theorem occupied_of_full (h : ∀ i < size, slots i ≠ vacant) :
    occupied vacant size slots = size := by
  rw [occupied, Finset.filter_true_of_mem, Finset.card_range]
  exact fun i hi => h i (Finset.mem_range.mp hi)

theorem occupied_le : occupied vacant size slots ≤ size := by
  refine (Finset.card_filter_le _ _).trans ?_
  rw [Finset.card_range]

end SlotBucket

end Barley
