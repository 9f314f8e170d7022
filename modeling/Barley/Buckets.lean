/-
Keys filed in buckets.  Each key has at most one place, and the bucket of a
place lists exactly the keys that have it, each once.
-/
import Mathlib.Algebra.BigOperators.Group.Finset.Basic
import Mathlib.Algebra.Order.BigOperators.Group.Finset
import Mathlib.Data.List.Nodup

namespace Barley

namespace Buckets

variable {K S : Type} [DecidableEq K]

/-- Every key is in the bucket of its place, once, and in no other. -/
structure Located (place : K → Option S) (bucket : S → List K) : Prop where
  mem_iff : ∀ slot key, key ∈ bucket slot ↔ place key = some slot
  nodup : ∀ slot, (bucket slot).Nodup

variable {place : K → Option S} {bucket : S → List K} {key : K} {slot : S}

theorem card_placed_add {keys : Finset K} (hkey : key ∈ keys)
    (hnone : place key = none) (slot : S) :
    (keys.filter fun k =>
        (Function.update place key (some slot) k).isSome).card =
      (keys.filter fun k => (place k).isSome).card + 1 := by
  rw [← Finset.card_insert_of_notMem
    (a := key) (s := keys.filter fun k => (place k).isSome) (by simp [hnone])]
  congr 1
  ext other
  by_cases hother : other = key
  · subst hother
    simp [hkey]
  · simp [hother]

theorem card_placed_remove {keys : Finset K} (hkey : key ∈ keys)
    (hplace : place key = some slot) :
    (keys.filter fun k => (Function.update place key none k).isSome).card =
      (keys.filter fun k => (place k).isSome).card - 1 := by
  rw [← Finset.card_erase_of_mem
    (a := key) (s := keys.filter fun k => (place k).isSome)
    (by simp [hkey, hplace])]
  congr 1
  ext other
  by_cases hother : other = key
  · subst hother
    simp
  · simp [hother]

variable [DecidableEq S]

theorem Located.count (h : Located place bucket) (slot : S) (key : K) :
    (bucket slot).count key = if place key = some slot then 1 else 0 := by
  by_cases hplace : place key = some slot
  · rw [if_pos hplace]
    exact List.count_eq_one_of_mem (h.nodup slot) ((h.mem_iff slot key).mpr hplace)
  · rw [if_neg hplace]
    exact List.count_eq_zero_of_not_mem fun hmem =>
      hplace ((h.mem_iff slot key).mp hmem)

/-- A key without a place is filed at the end of a bucket. -/
theorem Located.add (h : Located place bucket) (hnone : place key = none)
    (slot : S) :
    Located (Function.update place key (some slot))
      (Function.update bucket slot (bucket slot ++ [key])) := by
  have hnot : ∀ other, key ∉ bucket other := by
    intro other hmem
    rw [h.mem_iff, hnone] at hmem
    cases hmem
  constructor
  · intro other otherKey
    by_cases hslot : other = slot
    · subst hslot
      by_cases hkey : otherKey = key
      · subst hkey
        simp
      · simp [h.mem_iff, hkey]
    · rw [Function.update_of_ne hslot, h.mem_iff]
      by_cases hkey : otherKey = key
      · subst hkey
        simp [hnone, Ne.symm hslot]
      · rw [Function.update_of_ne hkey]
  · intro other
    by_cases hslot : other = slot
    · subst hslot
      rw [Function.update_self]
      refine List.Nodup.append (h.nodup other) (List.nodup_singleton key) ?_
      intro otherKey hmem hsingle
      rw [List.mem_singleton.mp hsingle] at hmem
      exact hnot other hmem
    · rw [Function.update_of_ne hslot]
      exact h.nodup other

/-- A key is taken out of the bucket of its place. -/
theorem Located.remove (h : Located place bucket) (hplace : place key = some slot) :
    Located (Function.update place key none)
      (Function.update bucket slot ((bucket slot).erase key)) := by
  constructor
  · intro other otherKey
    by_cases hslot : other = slot
    · subst hslot
      rw [Function.update_self, (h.nodup other).mem_erase_iff, h.mem_iff]
      by_cases hkey : otherKey = key
      · subst hkey
        simp
      · simp [hkey]
    · rw [Function.update_of_ne hslot, h.mem_iff]
      by_cases hkey : otherKey = key
      · subst hkey
        simp [hplace, Ne.symm hslot]
      · rw [Function.update_of_ne hkey]
  · intro other
    by_cases hslot : other = slot
    · subst hslot
      rw [Function.update_self]
      exact (h.nodup other).erase key
    · rw [Function.update_of_ne hslot]
      exact h.nodup other

/-- The buckets together hold as many keys as have a place. -/
theorem Located.sum_length (h : Located place bucket) {keys : Finset K}
    {slots : Finset S}
    (hplaced : ∀ key slot, place key = some slot → key ∈ keys ∧ slot ∈ slots) :
    ∑ slot ∈ slots, (bucket slot).length =
      (keys.filter fun key => (place key).isSome).card := by
  have hlength : ∀ slot, (bucket slot).length =
      (keys.filter fun key => place key = some slot).card := by
    intro slot
    rw [← List.toFinset_card_of_nodup (h.nodup slot)]
    congr 1
    ext key
    rw [List.mem_toFinset, h.mem_iff, Finset.mem_filter]
    exact ⟨fun hkey => ⟨(hplaced key slot hkey).1, hkey⟩, And.right⟩
  simp only [hlength]
  rw [← Finset.card_biUnion]
  · congr 1
    ext key
    simp only [Finset.mem_biUnion, Finset.mem_filter, Option.isSome_iff_exists]
    constructor
    · rintro ⟨slot, _, hkey, hslot⟩
      exact ⟨hkey, slot, hslot⟩
    · rintro ⟨hkey, slot, hslot⟩
      exact ⟨slot, (hplaced key slot hslot).2, hkey, hslot⟩
  · intro first _ second _ hne
    rw [Function.onFun, Finset.disjoint_left]
    intro key hfirst hsecond
    have heq := (Finset.mem_filter.mp hfirst).2.symm.trans
      (Finset.mem_filter.mp hsecond).2
    exact hne (Option.some.inj heq)

/-- Filing or removing a key leaves the others of every bucket in order. -/
theorem filter_update_append (bucket : S → List K) (slot : S) (key : K)
    (other : S) :
    (Function.update bucket slot (bucket slot ++ [key]) other).filter
        (fun k => k ≠ key) = (bucket other).filter fun k => k ≠ key := by
  by_cases hslot : other = slot
  · subst hslot
    simp
  · rw [Function.update_of_ne hslot]

theorem filter_update_erase (bucket : S → List K) (slot : S) (key : K)
    (other : S) :
    (Function.update bucket slot ((bucket slot).erase key) other).filter
        (fun k => k ≠ key) = (bucket other).filter fun k => k ≠ key := by
  by_cases hslot : other = slot
  · subst hslot
    rw [Function.update_self]
    induction bucket other with
    | nil => rfl
    | cons first rest ih =>
        by_cases hfirst : first = key
        · subst hfirst
          simp
        · rw [List.erase_cons_tail (by simpa using hfirst), List.filter_cons,
            List.filter_cons, ih]
  · rw [Function.update_of_ne hslot]

end Buckets

end Barley
