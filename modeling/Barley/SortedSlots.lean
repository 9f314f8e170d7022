/-
Arrays of slots kept in key order, read as finite maps.  Inserting before the
first larger key, replacing a slot and closing a gap are the three changes
such an array needs; each is an update of the map at a single key.
-/
import Mathlib.Data.Finset.Card
import Mathlib.Data.Finset.Image
import Mathlib.Logic.Function.Basic
import Mathlib.Tactic.Common

namespace Barley

namespace SortedSlots

variable {A : Type} (key : A → Nat)

/-- The first `count` slots are strictly sorted by key. -/
def Sorted (slots : Nat → A) (count : Nat) : Prop :=
  ∀ i j, i < j → j < count → key (slots i) < key (slots j)

/-- The slot with this key among the first `count` slots. -/
def lookup (slots : Nat → A) (count k : Nat) : Option A :=
  ((List.range count).find? fun i => key (slots i) = k).map slots

/-- Put `entry` at `i` and move every slot from `i` on one further. -/
def insertSlot (slots : Nat → A) (i : Nat) (entry : A) (j : Nat) : A :=
  if j < i then slots j else if j = i then entry else slots (j - 1)

/-- Drop slot `i` and move every slot after it one back. -/
def removeSlot (slots : Nat → A) (i j : Nat) : A :=
  if j < i then slots j else slots (j + 1)

/-- The keys in use. -/
def keys (slots : Nat → A) (count : Nat) : Finset Nat :=
  (Finset.range count).image fun i => key (slots i)

variable {key} {slots : Nat → A} {count : Nat}

theorem Sorted.injective (hsorted : Sorted key slots count) {i j : Nat}
    (hi : i < count) (hj : j < count)
    (heq : key (slots i) = key (slots j)) : i = j := by
  rcases Nat.lt_trichotomy i j with hlt | rfl | hlt
  · exact absurd heq (Nat.ne_of_lt (hsorted i j hlt hj))
  · rfl
  · exact absurd heq.symm (Nat.ne_of_lt (hsorted j i hlt hi))

theorem card_keys (hsorted : Sorted key slots count) :
    (keys key slots count).card = count := by
  rw [keys, Finset.card_image_of_injOn, Finset.card_range]
  intro i hi j hj heq
  exact hsorted.injective (Finset.mem_range.mp hi) (Finset.mem_range.mp hj) heq

theorem mem_keys {k : Nat} :
    k ∈ keys key slots count ↔ ∃ i < count, key (slots i) = k := by
  simp [keys]

theorem lookup_isSome_iff {k : Nat} :
    (lookup key slots count k).isSome ↔ k ∈ keys key slots count := by
  simp [lookup, mem_keys]

/-- In a sorted array a lookup finds every slot, not only the first one. -/
theorem lookup_eq_some_iff (hsorted : Sorted key slots count) {k : Nat}
    {entry : A} :
    lookup key slots count k = some entry ↔
      ∃ i < count, slots i = entry ∧ key entry = k := by
  constructor
  · intro h
    obtain ⟨i, hfind, rfl⟩ := Option.map_eq_some_iff.mp h
    obtain ⟨hkey, hmem, _⟩ := List.find?_range_eq_some.mp hfind
    exact ⟨i, List.mem_range.mp hmem, rfl, of_decide_eq_true hkey⟩
  · rintro ⟨i, hi, rfl, rfl⟩
    have hfind : (List.range count).find?
        (fun j => key (slots j) = key (slots i)) = some i := by
      refine List.find?_range_eq_some.mpr ⟨by simp, List.mem_range.mpr hi, ?_⟩
      intro j hj
      simpa using Nat.ne_of_lt (hsorted j i hj hi)
    rw [lookup, hfind, Option.map_some]

/-- A key that no slot holds is looked up in vain. -/
theorem lookup_eq_none_iff {k : Nat} :
    lookup key slots count k = none ↔ ∀ i < count, key (slots i) ≠ k := by
  simp [lookup]

/-- The first slot with a property has the least key of those with it. -/
theorem find?_key (hsorted : Sorted key slots count) (p : A → Bool)
    {bound : Nat} (hbound : ∀ i < count, key (slots i) < bound) :
    ((List.range count).find? fun i => p (slots i)).map
        (fun i => key (slots i)) =
      (List.range bound).find? fun k => (lookup key slots count k).any p := by
  cases hfind : (List.range count).find? fun i => p (slots i) with
  | none =>
      rw [Option.map_none, eq_comm, List.find?_eq_none]
      intro k _ hany
      obtain ⟨entry, hentry, hp⟩ := (Option.any_eq_true _ _).mp hany
      obtain ⟨i, hi, rfl, _⟩ := (lookup_eq_some_iff hsorted).mp hentry
      exact List.find?_eq_none.mp hfind i (List.mem_range.mpr hi) hp
  | some i =>
      obtain ⟨hp, hmem, hbefore⟩ := List.find?_range_eq_some.mp hfind
      have hi := List.mem_range.mp hmem
      rw [Option.map_some, eq_comm]
      refine List.find?_range_eq_some.mpr
        ⟨?_, List.mem_range.mpr (hbound i hi), ?_⟩
      · rw [(lookup_eq_some_iff hsorted).mpr ⟨i, hi, rfl, rfl⟩]
        exact hp
      · intro k hk
        cases hlookup : lookup key slots count k with
        | none => rfl
        | some entry =>
            obtain ⟨j, hj, rfl, rfl⟩ := (lookup_eq_some_iff hsorted).mp hlookup
            have hlt : j < i := by
              by_contra hge
              rcases Nat.lt_or_eq_of_le (Nat.not_lt.mp hge) with hij | rfl
              · exact absurd (hsorted i j hij hj) (Nat.lt_asymm hk)
              · exact absurd hk (Nat.lt_irrefl _)
            exact hbefore j hlt

theorem sorted_congr {other : Nat → A}
    (hsame : ∀ i < count, other i = slots i)
    (hsorted : Sorted key slots count) : Sorted key other count := by
  intro i j hij hj
  rw [hsame i (Nat.lt_trans hij hj), hsame j hj]
  exact hsorted i j hij hj

theorem lookup_congr {other : Nat → A}
    (hsame : ∀ i < count, other i = slots i)
    (hsorted : Sorted key slots count) :
    lookup key other count = lookup key slots count := by
  funext k
  apply Option.ext
  intro entry
  rw [lookup_eq_some_iff (sorted_congr hsame hsorted),
    lookup_eq_some_iff hsorted]
  constructor
  · rintro ⟨i, hi, rfl, hkey⟩
    exact ⟨i, hi, (hsame i hi).symm, hkey⟩
  · rintro ⟨i, hi, rfl, hkey⟩
    exact ⟨i, hi, hsame i hi, hkey⟩

/-- Changing every slot but no key changes every entry of the map. -/
theorem lookup_map {f : A → A} (hkey : ∀ entry, key (f entry) = key entry)
    {other : Nat → A} (hsame : ∀ i < count, other i = f (slots i))
    (hsorted : Sorted key slots count) (k : Nat) :
    lookup key other count k = (lookup key slots count k).map f := by
  have hother : Sorted key other count := by
    intro i j hij hj
    rw [hsame i (Nat.lt_trans hij hj), hsame j hj, hkey, hkey]
    exact hsorted i j hij hj
  apply Option.ext
  intro entry
  rw [lookup_eq_some_iff hother, Option.map_eq_some_iff]
  constructor
  · rintro ⟨i, hi, rfl, rfl⟩
    refine ⟨slots i, (lookup_eq_some_iff hsorted).mpr ⟨i, hi, rfl, ?_⟩,
      (hsame i hi).symm⟩
    rw [hsame i hi, hkey]
  · rintro ⟨found, hfound, rfl⟩
    obtain ⟨i, hi, rfl, rfl⟩ := (lookup_eq_some_iff hsorted).mp hfound
    exact ⟨i, hi, hsame i hi, hkey _⟩

section Insert

variable {i : Nat} {entry : A} (hi : i ≤ count)
  (hbefore : ∀ j < i, key (slots j) < key entry)
  (hafter : ∀ j, i ≤ j → j < count → key entry < key (slots j))

include hi hbefore hafter

theorem sorted_insertSlot (hsorted : Sorted key slots count) :
    Sorted key (insertSlot slots i entry) (count + 1) := by
  intro a b hab hb
  unfold insertSlot
  by_cases hai : a < i
  · rw [if_pos hai]
    by_cases hbi : b < i
    · rw [if_pos hbi]
      exact hsorted a b hab (by omega)
    · rw [if_neg hbi]
      by_cases heq : b = i
      · rw [if_pos heq]
        exact hbefore a hai
      · rw [if_neg heq]
        exact hsorted a (b - 1) (by omega) (by omega)
  · rw [if_neg hai, if_neg (by omega : ¬ b < i), if_neg (by omega : ¬ b = i)]
    by_cases heq : a = i
    · rw [if_pos heq]
      exact hafter (b - 1) (by omega) (by omega)
    · rw [if_neg heq]
      exact hsorted (a - 1) (b - 1) (by omega) (by omega)

theorem lookup_insertSlot (hsorted : Sorted key slots count) :
    lookup key (insertSlot slots i entry) (count + 1) =
      Function.update (lookup key slots count) (key entry) (some entry) := by
  have hnew := sorted_insertSlot hi hbefore hafter hsorted
  funext k
  apply Option.ext
  intro found
  rw [lookup_eq_some_iff hnew]
  by_cases hk : k = key entry
  · subst hk
    rw [Function.update_self, Option.some.injEq]
    constructor
    · rintro ⟨j, hj, rfl, hkey⟩
      have hself : insertSlot slots i entry i = entry := by simp [insertSlot]
      have hji := hnew.injective hj (Nat.lt_succ_of_le hi)
        (hkey.trans (congrArg key hself.symm))
      rw [hji, hself]
    · rintro rfl
      exact ⟨i, Nat.lt_succ_of_le hi, by simp [insertSlot], rfl⟩
  · rw [Function.update_of_ne hk, lookup_eq_some_iff hsorted]
    constructor
    · rintro ⟨j, hj, rfl, rfl⟩
      by_cases hji : j < i
      · exact ⟨j, by omega, by simp [insertSlot, hji], rfl⟩
      · have hne : j ≠ i := by
          rintro rfl
          exact hk (by simp [insertSlot])
        refine ⟨j - 1, by omega, ?_, rfl⟩
        rw [insertSlot, if_neg hji, if_neg hne]
    · rintro ⟨j, hj, rfl, rfl⟩
      by_cases hji : j < i
      · exact ⟨j, by omega, by simp [insertSlot, hji], rfl⟩
      · refine ⟨j + 1, by omega, ?_, rfl⟩
        rw [insertSlot, if_neg (by omega), if_neg (by omega),
          Nat.add_sub_cancel]

end Insert

section Replace

variable {i : Nat} {entry : A}

theorem sorted_update (hkey : key entry = key (slots i))
    (hsorted : Sorted key slots count) :
    Sorted key (Function.update slots i entry) count := by
  have hsame : ∀ j, key (Function.update slots i entry j) = key (slots j) := by
    intro j
    by_cases hj : j = i
    · rw [hj, Function.update_self, hkey]
    · rw [Function.update_of_ne hj]
  intro a b hab hb
  rw [hsame, hsame]
  exact hsorted a b hab hb

theorem lookup_update (hi : i < count) (hkey : key entry = key (slots i))
    (hsorted : Sorted key slots count) :
    lookup key (Function.update slots i entry) count =
      Function.update (lookup key slots count) (key entry) (some entry) := by
  have hnew := sorted_update hkey hsorted
  funext k
  apply Option.ext
  intro found
  rw [lookup_eq_some_iff hnew]
  by_cases hk : k = key entry
  · subst hk
    rw [Function.update_self, Option.some.injEq]
    constructor
    · rintro ⟨j, hj, rfl, hj'⟩
      have hji := hnew.injective hj hi (by rw [hj', Function.update_self])
      rw [hji, Function.update_self]
    · rintro rfl
      exact ⟨i, hi, Function.update_self _ _ _, rfl⟩
  · rw [Function.update_of_ne hk, lookup_eq_some_iff hsorted]
    have hne : ∀ j, key (slots j) = k → j ≠ i := by
      rintro j rfl rfl
      exact hk hkey.symm
    constructor
    · rintro ⟨j, hj, rfl, rfl⟩
      have hji : j ≠ i := by
        rintro rfl
        exact hk (by rw [Function.update_self])
      exact ⟨j, hj, by rw [Function.update_of_ne hji], rfl⟩
    · rintro ⟨j, hj, rfl, rfl⟩
      exact ⟨j, hj, Function.update_of_ne (hne j rfl) _ _, rfl⟩

end Replace

section Remove

variable {i : Nat}

theorem sorted_removeSlot (hsorted : Sorted key slots count) :
    Sorted key (removeSlot slots i) (count - 1) := by
  intro a b hab hb
  unfold removeSlot
  split
  · split
    · exact hsorted a b hab (by omega)
    · exact hsorted a (b + 1) (by omega) (by omega)
  · rw [if_neg (by omega : ¬ b < i)]
    exact hsorted (a + 1) (b + 1) (by omega) (by omega)

theorem lookup_removeSlot (hi : i < count)
    (hsorted : Sorted key slots count) :
    lookup key (removeSlot slots i) (count - 1) =
      Function.update (lookup key slots count) (key (slots i)) none := by
  funext k
  apply Option.ext
  intro found
  rw [lookup_eq_some_iff (sorted_removeSlot hsorted)]
  by_cases hk : k = key (slots i)
  · rw [hk, Function.update_self]
    simp only [reduceCtorEq, iff_false, not_exists, not_and]
    rintro j hj rfl
    unfold removeSlot
    split
    · exact Nat.ne_of_lt (hsorted j i ‹_› hi)
    · exact Nat.ne_of_gt (hsorted i (j + 1) (by omega) (by omega))
  · rw [Function.update_of_ne hk, lookup_eq_some_iff hsorted]
    constructor
    · rintro ⟨j, hj, rfl, rfl⟩
      by_cases hji : j < i
      · exact ⟨j, by omega, by simp [removeSlot, hji], rfl⟩
      · exact ⟨j + 1, by omega, by simp [removeSlot, hji], rfl⟩
    · rintro ⟨j, hj, rfl, rfl⟩
      by_cases hji : j < i
      · exact ⟨j, by omega, by simp [removeSlot, hji], rfl⟩
      · have hne : j ≠ i := by
          rintro rfl
          exact hk rfl
        refine ⟨j - 1, by omega, ?_, rfl⟩
        rw [removeSlot, if_neg (by omega), Nat.sub_add_cancel (by omega)]

end Remove

section Copies

variable {K V : Type} [DecidableEq K]

/-- Copy entries one after the other, each from its source as it is then. -/
def copyAll (moves : List (K × K)) (f : K → V) : K → V :=
  moves.foldl (fun f move => Function.update f move.1 (f move.2)) f

/-- No copy reads or writes an entry that an earlier copy has written. -/
def Apart (moves : List (K × K)) : Prop :=
  moves.Pairwise fun first next => first.1 ≠ next.1 ∧ first.1 ≠ next.2

theorem copyAll_of_not_mem {moves : List (K × K)} {f : K → V} {k : K}
    (h : ∀ move ∈ moves, move.1 ≠ k) : copyAll moves f k = f k := by
  induction moves generalizing f with
  | nil => rfl
  | cons move rest ih =>
      have hrest : copyAll rest (Function.update f move.1 (f move.2)) k =
          Function.update f move.1 (f move.2) k :=
        ih fun other hother => h other (List.mem_cons_of_mem _ hother)
      rw [Function.update_of_ne (h move List.mem_cons_self).symm] at hrest
      exact hrest

/-- Copies that keep apart all read the entries as they were at first. -/
theorem copyAll_of_mem {moves : List (K × K)} (hapart : Apart moves)
    {f : K → V} {dst src : K} (hmem : (dst, src) ∈ moves) :
    copyAll moves f dst = f src := by
  induction moves generalizing f with
  | nil => exact absurd hmem List.not_mem_nil
  | cons move rest ih =>
      obtain ⟨hfirst, hrest⟩ := List.pairwise_cons.mp hapart
      have hstep : copyAll (move :: rest) f =
          copyAll rest (Function.update f move.1 (f move.2)) := rfl
      rcases List.mem_cons.mp hmem with rfl | hmem
      · rw [hstep, copyAll_of_not_mem fun other hother =>
          (hfirst other hother).1.symm, Function.update_self]
      · rw [hstep, ih hrest hmem,
          Function.update_of_ne (hfirst _ hmem).2.symm]

/-- The copies that close the gap at `i`, slot by slot upwards. -/
def closing (i count : Nat) : List (Nat × Nat) :=
  (List.range' i (count - 1 - i)).map fun j => (j, j + 1)

/-- The copies that open a gap at `i`, slot by slot downwards. -/
def opening (i count : Nat) : List (Nat × Nat) :=
  (List.range (count - i)).map fun k => (count - 1 - k + 1, count - 1 - k)

theorem mem_closing {i count dst src : Nat} :
    (dst, src) ∈ closing i count ↔
      src = dst + 1 ∧ i ≤ dst ∧ dst < count - 1 := by
  simp only [closing, List.mem_map, List.mem_range'_1, Prod.mk.injEq]
  constructor
  · rintro ⟨j, hj, rfl, rfl⟩
    omega
  · rintro ⟨rfl, hle, hlt⟩
    exact ⟨dst, by omega, rfl, rfl⟩

theorem mem_opening {i count dst src : Nat} :
    (dst, src) ∈ opening i count ↔
      dst = src + 1 ∧ i ≤ src ∧ src < count := by
  simp only [opening, List.mem_map, List.mem_range, Prod.mk.injEq]
  constructor
  · rintro ⟨k, hk, rfl, rfl⟩
    omega
  · rintro ⟨rfl, hle, hlt⟩
    exact ⟨count - 1 - src, by omega, by omega, by omega⟩

omit [DecidableEq K] in
/-- Under a labelling that tells the slots apart the copies that close a gap
keep apart. -/
theorem apart_closing {i count : Nat} {label : Nat → K}
    (hlabel : ∀ a b, i ≤ a → a < b → b < count → label a ≠ label b) :
    Apart ((closing i count).map fun move => (label move.1, label move.2)) := by
  rw [Apart, closing, List.map_map, List.pairwise_map]
  refine List.Pairwise.imp_of_mem ?_ List.pairwise_lt_range'
  intro a b ha hb hab
  rw [List.mem_range'_1] at ha hb
  exact ⟨hlabel a b ha.1 hab (by omega),
    hlabel a (b + 1) ha.1 (Nat.lt_succ_of_lt hab) (by omega)⟩

omit [DecidableEq K] in
theorem apart_opening {i count : Nat} {label : Nat → K}
    (hlabel : ∀ a b, i ≤ a → a < b → b ≤ count → label b ≠ label a) :
    Apart ((opening i count).map fun move => (label move.1, label move.2)) := by
  rw [Apart, opening, List.map_map, List.pairwise_map]
  refine List.Pairwise.imp_of_mem ?_ List.pairwise_lt_range
  intro a b ha hb hab
  rw [List.mem_range] at ha hb
  exact ⟨hlabel (count - 1 - b + 1) (count - 1 - a + 1) (by omega) (by omega)
      (by omega),
    hlabel (count - 1 - b) (count - 1 - a + 1) (by omega) (by omega)
      (by omega)⟩

theorem apart_closing_slots {i count : Nat} : Apart (closing i count) := by
  have hapart : Apart ((closing i count).map id) :=
    apart_closing fun a b _ hab _ => Nat.ne_of_lt hab
  rwa [List.map_id] at hapart

theorem apart_opening_slots {i count : Nat} : Apart (opening i count) := by
  have hapart : Apart ((opening i count).map id) :=
    apart_opening fun a b _ hab _ => Nat.ne_of_gt hab
  rwa [List.map_id] at hapart

end Copies

end SortedSlots

end Barley
