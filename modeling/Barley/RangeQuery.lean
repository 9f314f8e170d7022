/-
A query over a range of indexes.  Each index is looked up in a table, and the
entries that are found are written one behind the other into an array of fixed
size.
-/
import Mathlib.Data.List.Basic

namespace Barley

namespace RangeQuery

variable {E : Type}

/-- What looking up an index gives; `outside` stands for a read that leaves the
table. -/
inductive Got (E : Type) where
  | outside
  | absent
  | entry (e : E)

/-- The loop over the indexes; `none` when it reads outside the table, or
writes behind the array. -/
def collect (get : Nat → Got E) (capacity : Nat) :
    List E → List Nat → Option (List E)
  | out, [] => some out
  | out, index :: rest =>
      match get index with
      | .outside => none
      | .absent => collect get capacity out rest
      | .entry e =>
          if out.length < capacity then
            collect get capacity (out ++ [e]) rest
          else none

/-- The index is looked up as what it is in the table. -/
def Exact (get : Nat → Got E) (present : Nat → Option E) (index : Nat) : Prop :=
  match present index with
  | none => get index = .absent
  | some e => get index = .entry e

/-- Looking up an index without leaving the table. -/
def Got.ofOption : Option E → Got E
  | none => .absent
  | some e => .entry e

variable {get : Nat → Got E} {capacity : Nat} {present : Nat → Option E}

theorem exact_iff {index : Nat} {found : Option E}
    (h : get index = .ofOption found) :
    Exact get present index ↔ present index = found := by
  rw [Exact, h]
  cases present index <;> cases found <;> simp [Got.ofOption, eq_comm]

theorem not_exact {index : Nat} (h : get index = .outside) :
    ¬ Exact get present index := by
  rw [Exact, h]
  cases present index <;> simp

/-- With every index looked up as what it is, the entries of the range come
out, if the array holds them. -/
theorem collect_of_exact {indexes : List Nat} {out : List E}
    (hexact : ∀ index ∈ indexes, Exact get present index) :
    collect get capacity out indexes =
      if out.length + (indexes.filterMap present).length ≤ capacity ∨
        indexes.filterMap present = [] then
        some (out ++ indexes.filterMap present)
      else none := by
  induction indexes generalizing out with
  | nil => simp [collect]
  | cons index rest ih =>
      have hindex := hexact index List.mem_cons_self
      have hrest := fun other hother =>
        hexact other (List.mem_cons_of_mem index hother)
      rw [Exact] at hindex
      cases hpresent : present index with
      | none =>
          simp only [hpresent] at hindex
          simp only [collect, hindex, List.filterMap_cons, hpresent, ih hrest]
      | some e =>
          simp only [hpresent] at hindex
          simp only [collect, hindex, List.filterMap_cons, hpresent,
            List.length_cons, reduceCtorEq, or_false]
          by_cases hroom : out.length < capacity
          · rw [if_pos hroom, ih hrest, List.length_append, List.length_singleton,
              List.append_assoc, List.singleton_append]
            by_cases hnil : rest.filterMap present = []
            · simp only [hnil, List.length_nil, or_true, if_true]
              rw [if_pos (by omega)]
            · simp only [hnil, or_false, Nat.add_right_comm, Nat.add_assoc]
          · rw [if_neg hroom, if_neg (by omega)]

/-- What comes out is at least as long as what it started with, by every index
that is looked up as an entry. -/
theorem length_collect {indexes : List Nat} {out result : List E}
    (hfound : ∀ index ∈ indexes, ∀ e, present index = some e →
      get index = .outside ∨ get index = .entry e)
    (h : collect get capacity out indexes = some result) :
    out.length + (indexes.filterMap present).length ≤ result.length ∧
      (out.length + (indexes.filterMap present).length = result.length →
        ∀ index ∈ indexes, Exact get present index) := by
  induction indexes generalizing out with
  | nil =>
      cases h
      exact ⟨Nat.le_refl _, fun _ index hmem => absurd hmem List.not_mem_nil⟩
  | cons index rest ih =>
      have hrest := fun other hother =>
        hfound other (List.mem_cons_of_mem index hother)
      have hindex := hfound index List.mem_cons_self
      cases hget : get index with
      | outside => simp [collect, hget] at h
      | absent =>
          simp only [collect, hget] at h
          obtain ⟨hle, hexact⟩ := ih hrest h
          have hnone : present index = none := by
            rw [Option.eq_none_iff_forall_ne_some]
            intro e hsome
            rcases hindex e hsome with hother | hother
            · rw [hother] at hget
              cases hget
            · rw [hother] at hget
              cases hget
          rw [List.filterMap_cons_none hnone]
          refine ⟨hle, fun heq => List.forall_mem_cons.mpr ⟨?_, hexact heq⟩⟩
          simp only [Exact, hnone, hget]
      | entry e =>
          simp only [collect, hget] at h
          split at h
          case isFalse => cases h
          case isTrue =>
            obtain ⟨hle, hexact⟩ := ih hrest h
            rw [List.length_append, List.length_singleton] at hle hexact
            cases hpresent : present index with
            | none =>
                -- a stray entry makes the result too long
                rw [List.filterMap_cons_none hpresent]
                exact ⟨by omega, fun heq => by omega⟩
            | some e' =>
                rw [List.filterMap_cons_some hpresent, List.length_cons]
                refine ⟨by omega, fun heq => List.forall_mem_cons.mpr
                  ⟨?_, hexact (by omega)⟩⟩
                have hentry : get index = .entry e' := by
                  rcases hindex e' hpresent with hother | hother
                  · rw [hother] at hget
                    cases hget
                  · exact hother
                simp only [Exact, hpresent, hentry]

/-- The query returns the first entries of the range exactly when it looks up
every index as what it is, and the array holds all of them. -/
theorem collect_eq_take_iff {indexes : List Nat}
    (hfound : ∀ index ∈ indexes, ∀ e, present index = some e →
      get index = .outside ∨ get index = .entry e) :
    collect get capacity [] indexes =
        some ((indexes.filterMap present).take capacity) ↔
      (∀ index ∈ indexes, Exact get present index) ∧
        (indexes.filterMap present).length ≤ capacity := by
  constructor
  · intro h
    obtain ⟨hle, hexact⟩ := length_collect hfound h
    rw [List.length_take, List.length_nil, Nat.zero_add] at hle hexact
    exact ⟨hexact (by omega), by omega⟩
  · rintro ⟨hexact, hlen⟩
    rw [collect_of_exact hexact, List.take_of_length_le hlen, List.nil_append,
      List.length_nil, Nat.zero_add, if_pos (.inl hlen)]

/-- Where every index has an entry, the query succeeds exactly when none is
outside the table and the array holds all of them. -/
theorem collect_isSome_iff {indexes : List Nat} {out : List E}
    (hentry : ∀ index ∈ indexes, get index ≠ .absent) :
    (collect get capacity out indexes).isSome ↔
      (∀ index ∈ indexes, get index ≠ .outside) ∧
        (indexes ≠ [] → out.length + indexes.length ≤ capacity) := by
  induction indexes generalizing out with
  | nil => simp [collect]
  | cons index rest ih =>
      have hrest := fun other hother =>
        hentry other (List.mem_cons_of_mem index hother)
      rw [List.forall_mem_cons]
      cases hget : get index with
      | absent => exact absurd hget (hentry index List.mem_cons_self)
      | outside => simp [collect, hget]
      | entry e =>
          simp only [collect, hget, ne_eq, reduceCtorEq, not_false_eq_true,
            true_and, forall_const, List.length_cons]
          by_cases hroom : out.length < capacity
          · rw [if_pos hroom, ih hrest, List.length_append, List.length_singleton]
            refine and_congr_right fun _ => ?_
            cases rest with
            | nil => simpa [Nat.succ_le_iff] using hroom
            | cons next rest =>
                simp only [ne_eq, reduceCtorEq, not_false_eq_true, forall_const,
                  List.length_cons]
                omega
          · rw [if_neg hroom]
            refine iff_of_false Bool.false_ne_true fun h => ?_
            omega

section Pages

/-- The pages of `size` that a range of `count` indexes is asked for in. -/
def pages (size count : Nat) : Nat :=
  count / size + if count % size ≠ 0 then 1 else 0

/-- The length of page `j`; only the last one may be shorter. -/
def pageLength (size count j : Nat) : Nat :=
  if j = pages size count - 1 then
    if count % size ≠ 0 then count % size else size
  else size

theorem pageLength_le {size : Nat} (hsize : 0 < size) (count j : Nat) :
    pageLength size count j ≤ size := by
  unfold pageLength
  split_ifs
  · exact Nat.le_of_lt (Nat.mod_lt count hsize)
  · exact Nat.le_refl size
  · exact Nat.le_refl size

/-- A page ends within the range. -/
theorem page_stop_le (size count : Nat) {j : Nat}
    (hj : j < pages size count) :
    j * size + pageLength size count j ≤ count := by
  have hsplit := Nat.div_add_mod' count size
  unfold pages at hj
  unfold pageLength pages
  split_ifs at hj ⊢ with hrest hlast hlast
  · obtain rfl : j = count / size := by omega
    omega
  · have hmul := Nat.mul_le_mul_right size (by omega : j + 1 ≤ count / size)
    rw [Nat.succ_mul] at hmul
    omega
  · have hmul := Nat.mul_le_mul_right size (by omega : j + 1 ≤ count / size)
    rw [Nat.succ_mul] at hmul
    omega
  · have hmul := Nat.mul_le_mul_right size (by omega : j + 1 ≤ count / size)
    rw [Nat.succ_mul] at hmul
    omega

/-- Full pages, one behind the other. -/
theorem flatMap_fullPages (size start full : Nat) :
    (List.range full).flatMap (fun j => List.range' (start + j * size) size) =
      List.range' start (full * size) := by
  induction full with
  | zero => simp
  | succ full ih =>
      rw [List.range_succ, List.flatMap_append, ih, List.flatMap_singleton,
        Nat.succ_mul, List.range'_append_1]

/-- The pages are the range, each index once and in order. -/
theorem flatMap_pages (size start count : Nat) :
    (List.range (pages size count)).flatMap (fun j =>
        List.range' (start + j * size) (pageLength size count j)) =
      List.range' start count := by
  have hsplit := Nat.div_add_mod count size
  rw [Nat.mul_comm] at hsplit
  by_cases hrest : count % size = 0
  · have hpages : pages size count = count / size := by
      rw [pages, if_neg (not_not.mpr hrest), Nat.add_zero]
    have hlength : ∀ j, pageLength size count j = size := by
      intro j
      rw [pageLength, if_neg (not_not.mpr hrest), ite_self]
    simp only [hlength, hpages]
    rw [flatMap_fullPages]
    congr 1
    omega
  · have hpages : pages size count = count / size + 1 := by
      rw [pages, if_pos hrest]
    have hlast : pageLength size count (count / size) = count % size := by
      rw [pageLength, hpages, Nat.add_sub_cancel, if_pos rfl, if_pos hrest]
    have hfull : ∀ j ∈ List.range (count / size),
        List.range' (start + j * size) (pageLength size count j) =
          List.range' (start + j * size) size := by
      intro j hj
      have hlt := List.mem_range.mp hj
      rw [pageLength, hpages, if_neg (by omega)]
    rw [hpages, List.range_succ, List.flatMap_append, List.flatMap_congr hfull,
      flatMap_fullPages, List.flatMap_singleton, hlast, List.range'_append_1]
    congr 1

end Pages

end RangeQuery

end Barley
