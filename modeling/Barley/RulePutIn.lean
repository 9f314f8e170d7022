/-
Taking a filter out of the table and putting it in again: what both shifting
loops do to the slots and to the counters, for each place the filter may get.
-/
import Barley.RuleRename

namespace Barley

section Steps

variable {filtset : Filtset} {map : RuleMap} (hstores : filtset.Stores map)
  {i : Nat} (hi : i < filtset.numFilters)

include hi

theorem without_filtArr {k : Nat} (hk : k < filtset.numFilters - 1) :
    (filtset.without i).filtArr k = filtset.rest i k := by
  have hmoved := moveForwardFilterFromIndex_filtArr filtset hi k
  rw [if_neg (Nat.ne_of_lt hk)] at hmoved
  rw [Filtset.rest, SortedSlots.removeSlot]
  by_cases hki : k < i
  · rw [if_neg (by omega)] at hmoved
    rw [if_pos hki]
    exact hmoved
  · rw [if_pos (by omega)] at hmoved
    rw [if_neg hki]
    exact hmoved

theorem without_filtArr_last :
    (filtset.without i).filtArr (filtset.numFilters - 1) = clearedFilter := by
  have hmoved := moveForwardFilterFromIndex_filtArr filtset hi
    (filtset.numFilters - 1)
  rwa [if_pos rfl] at hmoved

include hstores

theorem Filtset.Stores.slotOf_cost :
    filtset.slotOf (filtset.filtArr i).cost = some (filtset.filtArr i) :=
  (SortedSlots.lookup_eq_some_iff hstores.sorted).mpr ⟨i, hi, rfl, rfl⟩

/-- Taking a filter out is deleting its tag. -/
theorem without_stores : ∃ map', (filtset.without i).Stores map' := by
  obtain ⟨j, hj, _, hcost, heq⟩ :=
    aclDeleteOneFilterByTagid_eq (hstores.slotOf_cost hi)
  have hji : j = i := SortedSlots.Sorted.injective hstores.sorted hj hi hcost
  subst hji
  have hdeleted := (StoreOp.delete (filtset.filtArr j).cost).apply_stores
    hstores
  rw [StoreOp.apply, heq] at hdeleted
  exact ⟨_, hdeleted⟩

theorem without_counters {k : Nat} (hk : k < filtset.numFilters - 1) :
    (filtset.without i).counters (filtset.rest i k).cost =
      if k < i then filtset.counters (filtset.rest i k).cost
      else if k + 1 < filtset.numFilters - 1 then
        filtset.counters (filtset.rest i (k + 1)).cost
      else (0, 0) := by
  simp only [Filtset.rest, SortedSlots.removeSlot]
  by_cases hki : k < i
  · rw [if_pos hki, if_pos hki]
    apply moveForwardFilterFromIndex_counters_other hi
    intro j hij hj
    exact hstores.cost_ne (Nat.lt_of_lt_of_le hki hij) (Nat.le_of_lt hj)
  · have hmoved := moveForwardFilterFromIndex_counters hstores
      (k := k + 1) (i := i) (by omega) (by omega)
    rw [if_neg hki, if_neg hki, if_neg (by omega : ¬ k + 1 < i)]
    refine hmoved.trans ?_
    by_cases hlast : k + 1 < filtset.numFilters - 1
    · rw [if_pos hlast, if_pos (by omega)]
    · rw [if_neg hlast, if_neg (by omega)]

/-- A tag that is not among the remaining ones keeps its counters, unless it
was the one taken out. -/
theorem without_counters_free {d : Nat} :
    (d ≠ (filtset.filtArr i).cost → ¬ filtset.HasTag d →
      (filtset.without i).counters d = filtset.counters d) ∧
    (filtset.without i).counters (filtset.filtArr i).cost =
      if i < filtset.numFilters - 1 then
        filtset.counters (filtset.rest i i).cost
      else (0, 0) := by
  constructor
  · intro _ hfree
    apply moveForwardFilterFromIndex_counters_other hi
    intro j _ hj hcost
    exact hfree (hstores.hasTag_iff.mpr ⟨j, hj, hcost⟩)
  · have hmoved := moveForwardFilterFromIndex_counters hstores
      (Nat.le_refl i) hi
    refine hmoved.trans ?_
    simp only [Filtset.rest, SortedSlots.removeSlot, Nat.lt_irrefl, if_false]
    by_cases hlast : i < filtset.numFilters - 1
    · rw [if_pos hlast, if_pos (by omega)]
    · rw [if_neg hlast, if_neg (by omega)]

end Steps

theorem Filtset.ruleOf_eq {filtset : Filtset} {tag : Nat} {filt : Filter}
    (hslot : filtset.slotOf tag = some filt) :
    filtset.ruleOf tag = some (filtset.ruleIn filt tag) := by
  rw [Filtset.ruleOf, hslot]
  rfl

theorem Filtset.ruleOf_none {filtset : Filtset} {tag : Nat}
    (hslot : filtset.slotOf tag = none) : filtset.ruleOf tag = none := by
  rw [Filtset.ruleOf, hslot]
  rfl

/-- Taking over the flags and the ranges of a slot gives its rule exactly when
the fields left behind and the counters are equal. -/
theorem ruleIn_take_iff {filtset next : Filtset} {slot filt : Filter}
    {s d : Nat} :
    next.ruleIn (slot.take filt) d = filtset.ruleIn filt s ↔
      filt.SameFields slot ∧ next.counters d = filtset.counters s := by
  simp only [Filtset.ruleIn, Filter.take, TagRule.mk.injEq, true_and,
    Filter.SameFields, Filtset.counters, Prod.mk.injEq]
  constructor
  · rintro ⟨hop, haction, htype, hsource, hnum, hbytes⟩
    exact ⟨⟨hop.symm, haction.symm, htype.symm, hsource.symm⟩, hnum, hbytes⟩
  · rintro ⟨⟨hop, haction, htype, hsource⟩, hnum, hbytes⟩
    exact ⟨hop.symm, haction.symm, htype.symm, hsource.symm, hnum, hbytes⟩

/-- A slot of `d` that has taken over the slot of `s` holds its rule exactly
when the fields left behind and the counters are equal. -/
theorem ruleOf_take_eq_iff {filtset next : Filtset} {slot filt : Filter}
    {s d : Nat} (hs : filtset.slotOf s = some filt)
    (hd : next.slotOf d = some { slot.take filt with cost := d }) :
    next.ruleOf d = filtset.ruleOf s ↔
      filt.SameFields slot ∧ next.counters d = filtset.counters s := by
  have hnext : next.ruleOf d = some (next.ruleIn (slot.take filt) d) :=
    (Filtset.ruleOf_eq hd).trans rfl
  rw [hnext, Filtset.ruleOf_eq hs, Option.some.injEq, ruleIn_take_iff]

theorem Filtset.count_of_sorted {filtset : Filtset}
    (hsorted : filtset.Sorted) :
    filtset.numFilters =
      (SortedSlots.keys Filter.cost filtset.filtArr
        filtset.numFilters).card :=
  (SortedSlots.card_keys hsorted).symm

/-- A table in which only the slot of `s` has moved to `d` is the renamed one
exactly when the rule came along whole and no other counter changed. -/
theorem renamed_iff_of_slots {filtset next : Filtset} {s d : Nat}
    {old base : Filter} (hold : filtset.slotOf s = some old)
    (hfree : d = s ∨ ¬ filtset.HasTag d) (hsorted : next.Sorted)
    (hslots : next.slotOf =
      Function.update (Function.update filtset.slotOf s none) d
        (some (base.take { old with cost := d }))) :
    filtset.Renamed next s d ↔ old.SameFields base ∧
      next.counters d = filtset.counters s ∧
      ∀ u, u ≠ s → u ≠ d → filtset.HasTag u →
        next.counters u = filtset.counters u := by
  have hs : filtset.HasTag s := by
    rw [Filtset.HasTag, hold]
    rfl
  have hslotD : next.slotOf d = some { base.take old with cost := d } := by
    rw [hslots, Function.update_self]
    rfl
  have hother : ∀ u, u ≠ s → u ≠ d →
      next.slotOf u = filtset.slotOf u := by
    intro u hus hud
    rw [hslots, Function.update_of_ne hud, Function.update_of_ne hus]
  have hkept : ∀ u, u ≠ s → u ≠ d →
      (next.ruleOf u = filtset.ruleOf u ↔
        (filtset.HasTag u → next.counters u = filtset.counters u)) := by
    intro u hus hud
    cases hslot : filtset.slotOf u with
    | none =>
        rw [Filtset.ruleOf_none hslot,
          Filtset.ruleOf_none ((hother u hus hud).trans hslot)]
        simp [Filtset.HasTag, hslot]
    | some filt =>
        rw [Filtset.ruleOf_eq hslot,
          Filtset.ruleOf_eq ((hother u hus hud).trans hslot)]
        simp [Filtset.HasTag, hslot, Filtset.ruleIn, Filtset.counters]
  rw [← and_assoc, ← ruleOf_take_eq_iff hold hslotD]
  constructor
  · intro h
    constructor
    · rcases hfree with rfl | hfree
      · exact (h.swapped hs hs).1
      · exact (h.moved hs hfree).1
    · intro u hus hud
      exact (hkept u hus hud).mp (h.others u hus hud)
  · rintro ⟨hrule, hcounters⟩
    refine ⟨hsorted, Filtset.count_of_sorted hsorted, ?_, ?_,
      fun hnot => absurd hs hnot, ?_⟩
    · intro _ hd
      rcases hfree with rfl | hfree
      · exact ⟨hrule, hrule⟩
      · exact absurd hd hfree
    · intro _ hnot
      refine ⟨hrule, Filtset.ruleOf_none ?_⟩
      have hds : s ≠ d := fun heq => hnot (heq ▸ hs)
      rw [hslots, Function.update_of_ne hds, Function.update_self]
    · intro u hus hud
      exact (hkept u hus hud).mpr (hcounters u hus hud)

section PutIn

variable {filtset : Filtset} {map : RuleMap} (hstores : filtset.Stores map)
  {i : Nat} (hi : i < filtset.numFilters)

include hstores

theorem rest_sorted : SortedSlots.Sorted Filter.cost (filtset.rest i)
    (filtset.numFilters - 1) :=
  SortedSlots.sorted_removeSlot hstores.sorted

include hi

/-- The filter put in at `k` is inserted there among the remaining ones. -/
theorem putIn_slots {d k : Nat} {next : Filtset} {entry : Filter}
    (hentry : entry.cost = d) (hk : k ≤ filtset.numFilters - 1)
    (hnum : next.numFilters = filtset.numFilters)
    (hbefore : ∀ j < k, (filtset.rest i j).cost < d)
    (hafter : ∀ j, k ≤ j → j < filtset.numFilters - 1 →
      d < (filtset.rest i j).cost)
    (hnext : ∀ j < filtset.numFilters, next.filtArr j =
      SortedSlots.insertSlot (filtset.rest i) k entry j) :
    next.Sorted ∧ next.slotOf =
      Function.update (Function.update filtset.slotOf
        (filtset.filtArr i).cost none) d (some entry) := by
  subst hentry
  have hcount : next.numFilters = filtset.numFilters - 1 + 1 := by omega
  have hsame : ∀ j < filtset.numFilters - 1 + 1, next.filtArr j =
      SortedSlots.insertSlot (filtset.rest i) k entry j := by
    intro j hj
    exact hnext j (by omega)
  have hrest := rest_sorted hstores (i := i)
  have hinserted := SortedSlots.sorted_insertSlot hk hbefore hafter hrest
  constructor
  · have hsorted := SortedSlots.sorted_congr hsame hinserted
    rw [← hcount] at hsorted
    exact hsorted
  · rw [Filtset.slotOf, hcount, SortedSlots.lookup_congr hsame hinserted,
      SortedSlots.lookup_insertSlot hk hbefore hafter hrest]
    congr 1
    exact SortedSlots.lookup_removeSlot hi hstores.sorted

omit hstores in
theorem shiftBack_without_filtArr {j : Nat}
    (hj : j < filtset.numFilters) (hpos : 0 < filtset.numFilters - 1) :
    (shiftBack (filtset.without i) 0).filtArr j =
      if 0 < j then filtset.rest i (j - 1) else filtset.rest i 0 := by
  have hnum : (filtset.without i).numFilters = filtset.numFilters - 1 := rfl
  rw [shiftBack_filtArr, hnum]
  by_cases hzero : 0 < j
  · rw [if_pos ⟨hzero, by omega⟩, if_pos hzero,
      without_filtArr hi (by omega)]
  · have hj0 : j = 0 := by omega
    subst hj0
    rw [if_neg (by omega), if_neg hzero, without_filtArr hi hpos]

omit hstores in
/-- The place `putInFilter` finds. -/
theorem putInFilter_cases (d : Nat) (filt : Filter) :
    (∃ k < filtset.numFilters - 1, d < (filtset.rest i k).cost ∧
      (∀ j < k, (filtset.rest i j).cost ≤ d) ∧
      putInFilter (filtset.without i) d filt =
        { restoreOneFilter (shiftBack (filtset.without i) 0) k filt with
          numFilters := filtset.numFilters }) ∨
    ((∀ k < filtset.numFilters - 1, (filtset.rest i k).cost ≤ d) ∧
      putInFilter (filtset.without i) d filt =
        { restoreOneFilter (filtset.without i) (filtset.numFilters - 1) filt
          with numFilters := filtset.numFilters }) := by
  have hnum : filtset.numFilters - 1 + 1 = filtset.numFilters := by omega
  have hcount : (filtset.without i).numFilters = filtset.numFilters - 1 := rfl
  simp only [putInFilter, hcount]
  cases hfind : (List.range (filtset.numFilters - 1)).find? fun j =>
      d < ((filtset.without i).filtArr j).cost with
  | none =>
      refine .inr ⟨?_, ?_⟩
      · intro k hk
        have hnone := List.find?_eq_none.mp hfind k (List.mem_range.mpr hk)
        rw [without_filtArr hi hk] at hnone
        simpa using hnone
      · simp only [restoreOneFilter, hcount, hnum]
  | some k =>
      obtain ⟨hfound, hmem, hfirst⟩ := List.find?_range_eq_some.mp hfind
      have hk := List.mem_range.mp hmem
      rw [without_filtArr hi hk] at hfound
      refine .inl ⟨k, hk, of_decide_eq_true hfound, ?_, ?_⟩
      · intro j hj
        have hnot := hfirst j hj
        rw [without_filtArr hi (by omega)] at hnot
        simpa using hnot
      · simp only [restoreOneFilter, shiftBack_numFilters, hcount, hnum]

/-- The tags of the remaining slots are the other tags. -/
theorem hasTag_rest_iff {u : Nat} :
    filtset.HasTag u ∧ u ≠ (filtset.filtArr i).cost ↔
      ∃ k < filtset.numFilters - 1, (filtset.rest i k).cost = u := by
  rw [hstores.hasTag_iff]
  simp only [Filtset.rest, SortedSlots.removeSlot]
  constructor
  · rintro ⟨⟨j, hj, rfl⟩, hne⟩
    have hji : j ≠ i := fun heq => hne (heq ▸ rfl)
    rcases Nat.lt_or_gt_of_ne hji with hlt | hgt
    · exact ⟨j, by omega, by rw [if_pos hlt]⟩
    · refine ⟨j - 1, by omega, ?_⟩
      rw [if_neg (by omega), Nat.sub_add_cancel (by omega)]
  · rintro ⟨k, hk, rfl⟩
    split
    · rename_i hki
      exact ⟨⟨k, by omega, rfl⟩, (hstores.cost_ne hki (Nat.le_of_lt hi)).symm⟩
    · exact ⟨⟨k + 1, by omega, rfl⟩, hstores.cost_ne (by omega) (by omega)⟩

/-- The counters the two shifts leave at the remaining tags. -/
theorem shiftBack_without_counters {k : Nat}
    (hk : k < filtset.numFilters - 1) :
    (shiftBack (filtset.without i) 0).counters (filtset.rest i k).cost =
      if k = 0 then (filtset.without i).counters (filtset.rest i 0).cost
      else (filtset.without i).counters (filtset.rest i (k - 1)).cost := by
  obtain ⟨map', hwithout⟩ := without_stores hstores hi
  by_cases hzero : k = 0
  · rw [if_pos hzero, hzero]
    apply shiftBack_counters_other
    intro j hj hle
    have hfirst : (filtset.without i).filtArr 0 = filtset.rest i 0 :=
      without_filtArr hi (hzero ▸ hk)
    rw [← hfirst]
    exact hwithout.cost_ne hj hle
  · have hnext := shiftBack_counters_next hwithout (Nat.zero_le (k - 1))
      (show k - 1 < filtset.numFilters - 1 by omega)
    rw [Nat.sub_add_cancel (by omega), without_filtArr hi hk,
      without_filtArr hi (by omega)] at hnext
    rw [if_neg hzero, hnext]

/-- Shifting everything back from the first slot keeps the counters of a tag
that is not among the remaining ones. -/
theorem shiftBack_without_counters_free {d : Nat} (hd : aclIndexStart ≤ d)
    (hfree : d = (filtset.filtArr i).cost ∨ ¬ filtset.HasTag d) :
    (shiftBack (filtset.without i) 0).counters d =
      (filtset.without i).counters d := by
  apply shiftBack_counters_other
  intro j _ hj hcost
  have hle : j ≤ filtset.numFilters - 1 := hj
  rcases Nat.lt_or_eq_of_le hle with hlt | rfl
  · rw [without_filtArr hi hlt] at hcost
    have hother := (hasTag_rest_iff hstores hi).mpr ⟨j, hlt, hcost⟩
    rcases hfree with heq | hfree
    · exact hother.2 heq
    · exact hfree hother.1
  · rw [without_filtArr_last hi] at hcost
    rw [← hcost] at hd
    exact absurd hd (by decide)

/-- The shifts undo each other behind slot `i`; before it and at the first
slot the counters have to be equal. -/
theorem inserted_counters_iff :
    (∀ k < filtset.numFilters - 1,
      (shiftBack (filtset.without i) 0).counters (filtset.rest i k).cost =
        filtset.counters (filtset.rest i k).cost) ↔
      (∀ k < i, k + 1 < filtset.numFilters - 1 →
        filtset.counters (filtset.rest i (k + 1)).cost =
          filtset.counters (filtset.rest i k).cost) ∧
      (i = 0 → 0 < filtset.numFilters - 1 →
        filtset.counters (filtset.rest i 0).cost =
          if 1 < filtset.numFilters - 1 then
            filtset.counters (filtset.rest i 1).cost
          else (0, 0)) := by
  have hshifted : ∀ k < filtset.numFilters - 1,
      (shiftBack (filtset.without i) 0).counters (filtset.rest i k).cost =
        if k = 0 then
          if 0 < i then filtset.counters (filtset.rest i 0).cost
          else if 1 < filtset.numFilters - 1 then
            filtset.counters (filtset.rest i 1).cost
          else (0, 0)
        else if k - 1 < i then filtset.counters (filtset.rest i (k - 1)).cost
        else filtset.counters (filtset.rest i k).cost := by
    intro k hk
    rw [shiftBack_without_counters hstores hi hk]
    by_cases hzero : k = 0
    · rw [if_pos hzero, if_pos hzero,
        without_counters hstores hi (by omega : 0 < filtset.numFilters - 1)]
    · rw [if_neg hzero, if_neg hzero, without_counters hstores hi (by omega),
        Nat.sub_add_cancel (by omega : 1 ≤ k), if_pos hk]
  constructor
  · intro hkept
    constructor
    · intro k hki hk
      have hnext := hkept (k + 1) hk
      rw [hshifted (k + 1) hk, if_neg (Nat.succ_ne_zero k),
        Nat.add_sub_cancel, if_pos hki] at hnext
      exact hnext.symm
    · intro hzero hpos
      have hfirst := hkept 0 hpos
      rw [hshifted 0 hpos, if_pos rfl, if_neg (by omega)] at hfirst
      exact hfirst.symm
  · rintro ⟨hbefore, hfirst⟩ k hk
    rw [hshifted k hk]
    by_cases hzero : k = 0
    · subst hzero
      rw [if_pos rfl]
      split
      · rfl
      · exact (hfirst (by omega) hk).symm
    · rw [if_neg hzero]
      split
      · rename_i hki
        have hnext := hbefore (k - 1) hki
        rw [Nat.sub_add_cancel (by omega : 1 ≤ k)] at hnext
        exact (hnext hk).symm
      · rfl

/-- The filter as it was copied, under its new tag. -/
def movedFilter (filtset : Filtset) (i d : Nat) : Filter :=
  { copyOneFilter filtset i with cost := d }

/-- Put behind the remaining filters, the filter lands in a cleared slot. -/
theorem putBehind_renamed_iff {d : Nat}
    (hfree : d = (filtset.filtArr i).cost ∨ ¬ filtset.HasTag d)
    (habove : ∀ k < filtset.numFilters - 1, (filtset.rest i k).cost < d)
    {next : Filtset}
    (hnext : next = { restoreOneFilter (filtset.without i)
      (filtset.numFilters - 1) (movedFilter filtset i d) with
        numFilters := filtset.numFilters }) :
    filtset.Renamed next (filtset.filtArr i).cost d ↔
      filtset.counters (filtset.filtArr i).cost =
        (filtset.without i).counters d ∧ filtset.Appends i d := by
  have hslots : ∀ j < filtset.numFilters, next.filtArr j =
      SortedSlots.insertSlot (filtset.rest i) (filtset.numFilters - 1)
        (clearedFilter.take { filtset.filtArr i with cost := d }) j := by
    intro j hj
    simp only [hnext, restoreOneFilter, SortedSlots.insertSlot]
    by_cases hlast : j = filtset.numFilters - 1
    · rw [hlast, Function.update_self, if_neg (Nat.lt_irrefl _), if_pos rfl,
        without_filtArr_last hi]
      rfl
    · rw [Function.update_of_ne hlast, if_pos (by omega),
        without_filtArr hi (by omega)]
  have hput := putIn_slots hstores hi (d := d) rfl (Nat.le_refl _)
    (by rw [hnext]) habove (fun j hle hlt => absurd hlt (Nat.not_lt.mpr hle))
    hslots
  have hold := hstores.slotOf_cost hi
  have hcounters : next.counters = (filtset.without i).counters := by
    rw [hnext]
    rfl
  have hidle : (∀ u, u ≠ (filtset.filtArr i).cost → u ≠ d →
      filtset.HasTag u → next.counters u = filtset.counters u) ↔
      ∀ k, i < k → k < filtset.numFilters →
        filtset.counters (filtset.filtArr k).cost = (0, 0) := by
    rw [hcounters, ← moveForward_keeps_iff hstores hi]
    constructor
    · intro h k hk hki
      have hne : (filtset.filtArr k).cost ≠ (filtset.filtArr i).cost :=
        fun heq => hki (SortedSlots.Sorted.injective hstores.sorted hk hi heq)
      have htag : filtset.HasTag (filtset.filtArr k).cost :=
        hstores.hasTag_iff.mpr ⟨k, hk, rfl⟩
      refine h _ hne ?_ htag
      rintro rfl
      rcases hfree with heq | hnot
      · exact hne heq
      · exact hnot htag
    · intro h u hus _ hu
      obtain ⟨k, hk, rfl⟩ := hstores.hasTag_iff.mp hu
      exact h k hk fun hki => hus (hki ▸ rfl)
  rw [renamed_iff_of_slots hold hfree hput.1 hput.2, hidle, hcounters,
    eq_comm (a := (filtset.without i).counters d)]
  constructor
  · rintro ⟨hfields, hown, hzero⟩
    exact ⟨hown, habove, hfields, hzero⟩
  · rintro ⟨hown, h⟩
    exact ⟨h.fields, hown, h.idle⟩

/-- Put at one of the first two places, the filter lands on what is left of
the first slot. -/
theorem putInFront_renamed_iff {d k : Nat} (hd : aclIndexStart ≤ d)
    (hfree : d = (filtset.filtArr i).cost ∨ ¬ filtset.HasTag d)
    (hk : k < filtset.numFilters - 1) (hfront : k ≤ 1)
    (hbelow : d < (filtset.rest i k).cost)
    (hbefore : ∀ j < k, (filtset.rest i j).cost < d)
    {next : Filtset}
    (hnext : next = { restoreOneFilter (shiftBack (filtset.without i) 0) k
      (movedFilter filtset i d) with numFilters := filtset.numFilters }) :
    filtset.Renamed next (filtset.filtArr i).cost d ↔
      filtset.counters (filtset.filtArr i).cost =
        (filtset.without i).counters d ∧ filtset.Inserts i d := by
  have hpos : 0 < filtset.numFilters - 1 := by omega
  have hrest := rest_sorted hstores (i := i)
  have hslots : ∀ j < filtset.numFilters, next.filtArr j =
      SortedSlots.insertSlot (filtset.rest i) k
        ((filtset.rest i 0).take { filtset.filtArr i with cost := d }) j := by
    intro j hj
    simp only [hnext, restoreOneFilter, SortedSlots.insertSlot]
    by_cases hjk : j = k
    · subst hjk
      have hslot : (shiftBack (filtset.without i) 0).filtArr j =
          filtset.rest i 0 := by
        rw [shiftBack_without_filtArr hi hj hpos]
        split
        · congr 1
          omega
        · rfl
      rw [Function.update_self, if_neg (Nat.lt_irrefl _), if_pos rfl, hslot]
      rfl
    · rw [Function.update_of_ne hjk, shiftBack_without_filtArr hi hj hpos]
      by_cases hlt : j < k
      · have hzero : j = 0 := by omega
        rw [if_neg (by omega), if_pos hlt, hzero]
      · rw [if_pos (by omega), if_neg hlt, if_neg hjk]
  have hafter : ∀ j, k ≤ j → j < filtset.numFilters - 1 →
      d < (filtset.rest i j).cost := by
    intro j hle hj
    rcases Nat.lt_or_eq_of_le hle with hlt | rfl
    · exact Nat.lt_trans hbelow (hrest k j hlt hj)
    · exact hbelow
  have hput := putIn_slots hstores hi (d := d) rfl (Nat.le_of_lt hk)
    (by rw [hnext]) hbefore hafter hslots
  have hold := hstores.slotOf_cost hi
  have hcounters : next.counters =
      (shiftBack (filtset.without i) 0).counters := by
    rw [hnext]
    rfl
  have hkept : (∀ u, u ≠ (filtset.filtArr i).cost → u ≠ d →
      filtset.HasTag u → next.counters u = filtset.counters u) ↔
      ∀ j < filtset.numFilters - 1,
        (shiftBack (filtset.without i) 0).counters (filtset.rest i j).cost =
          filtset.counters (filtset.rest i j).cost := by
    rw [hcounters]
    constructor
    · intro h j hj
      have hother := (hasTag_rest_iff hstores hi).mpr ⟨j, hj, rfl⟩
      refine h _ hother.2 ?_ hother.1
      rcases Nat.lt_or_ge j k with hlt | hge
      · exact Nat.ne_of_lt (hbefore j hlt)
      · exact Nat.ne_of_gt (hafter j hge hj)
    · intro h u hus _ hu
      obtain ⟨j, hj, rfl⟩ := (hasTag_rest_iff hstores hi).mp ⟨hu, hus⟩
      exact h j hj
  rw [renamed_iff_of_slots hold hfree hput.1 hput.2, hkept,
    inserted_counters_iff hstores hi, hcounters,
    shiftBack_without_counters_free hstores hi hd hfree,
    eq_comm (a := (filtset.without i).counters d)]
  constructor
  · rintro ⟨hfields, hown, hsame, hfirst⟩
    exact ⟨hown, ⟨k, hfront, hk, hbelow⟩, hfields, hsame,
      fun hzero => hfirst hzero hpos⟩
  · rintro ⟨hown, h⟩
    exact ⟨h.fields, hown, h.before, fun hzero _ => h.first hzero⟩

omit hstores in
/-- Put any further back, the first filter is doubled. -/
theorem putFurther_not_sorted {k : Nat} (hk : k < filtset.numFilters - 1)
    (hfar : 1 < k) (filt : Filter) :
    ¬ Filtset.Sorted
      { restoreOneFilter (shiftBack (filtset.without i) 0) k filt with
        numFilters := filtset.numFilters } := by
  intro hsorted
  have hlt := hsorted 0 1 Nat.zero_lt_one (show 1 < filtset.numFilters by
    omega)
  simp only [restoreOneFilter] at hlt
  rw [Function.update_of_ne (by omega), Function.update_of_ne (by omega),
    shiftBack_without_filtArr hi (by omega) (by omega),
    shiftBack_without_filtArr hi (by omega) (by omega),
    if_neg (Nat.lt_irrefl 0), if_pos Nat.zero_lt_one, Nat.sub_self] at hlt
  exact Nat.lt_irrefl _ hlt

/-- Put in under a tag that is still there, the filter doubles it. -/
theorem putInFilter_not_sorted {d : Nat} {filt : Filter}
    (hcost : filt.cost = d)
    (hother : filtset.HasTag d ∧ d ≠ (filtset.filtArr i).cost) :
    ¬ (putInFilter (filtset.without i) d filt).Sorted := by
  obtain ⟨m, hm, rfl⟩ := (hasTag_rest_iff hstores hi).mp hother
  have hrest := rest_sorted hstores (i := i)
  rcases putInFilter_cases hi (filtset.rest i m).cost filt with
    ⟨k, hk, hbelow, hbefore, heq⟩ | ⟨_, heq⟩
  · rw [heq]
    by_cases hfar : 1 < k
    · exact putFurther_not_sorted hi hk hfar filt
    · -- the tag is in the first slot and the filter is put behind it
      have hmk : m < k := by
        by_contra hkm
        rcases Nat.lt_or_eq_of_le (Nat.le_of_not_lt hkm) with hlt | rfl
        · exact Nat.lt_asymm hbelow (hrest k m hlt hm)
        · exact Nat.lt_irrefl _ hbelow
      have hm0 : m = 0 := by omega
      have hk1 : k = 1 := by omega
      subst hm0 hk1
      intro hsorted
      have hlt := hsorted 0 1 Nat.zero_lt_one
        (show 1 < filtset.numFilters by omega)
      simp only [restoreOneFilter] at hlt
      rw [Function.update_self, Function.update_of_ne (by omega),
        shiftBack_without_filtArr hi (by omega) (by omega),
        if_neg (Nat.lt_irrefl 0)] at hlt
      exact Nat.lt_irrefl _ (hcost ▸ hlt)
  · rw [heq]
    intro hsorted
    have hlt := hsorted m (filtset.numFilters - 1) hm
      (show filtset.numFilters - 1 < filtset.numFilters by omega)
    simp only [restoreOneFilter] at hlt
    rw [Function.update_self, Function.update_of_ne (Nat.ne_of_lt hm),
      without_filtArr hi hm] at hlt
    exact Nat.lt_irrefl _ (hcost ▸ hlt)

/-- Taken out and put in again, the filter is renamed exactly when it was
moveable. -/
theorem putInFilter_renamed_iff {d : Nat} (hd : aclIndexStart ≤ d)
    (hfree : d = (filtset.filtArr i).cost ∨ ¬ filtset.HasTag d) :
    filtset.Renamed
        (putInFilter (filtset.without i) d (movedFilter filtset i d))
        (filtset.filtArr i).cost d ↔
      filtset.counters (filtset.filtArr i).cost =
        (filtset.without i).counters d ∧
      (filtset.Appends i d ∨ filtset.Inserts i d) := by
  have hne : ∀ k < filtset.numFilters - 1, (filtset.rest i k).cost ≠ d := by
    intro k hk heq
    have hother := (hasTag_rest_iff hstores hi).mpr ⟨k, hk, heq⟩
    rcases hfree with hs | hnot
    · exact hother.2 hs
    · exact hnot hother.1
  have hrest := rest_sorted hstores (i := i)
  rcases putInFilter_cases hi d (movedFilter filtset i d) with
    ⟨k, hk, hbelow, hbefore, heq⟩ | ⟨habove, heq⟩
  · have hnotabove : ¬ filtset.Appends i d :=
      fun h => Nat.lt_asymm hbelow (h.above k hk)
    rw [or_iff_right hnotabove]
    by_cases hfront : k ≤ 1
    · refine putInFront_renamed_iff hstores hi hd hfree hk hfront hbelow ?_ heq
      intro j hj
      exact Nat.lt_of_le_of_ne (hbefore j hj) (hne j (by omega))
    · constructor
      · intro h
        have hsorted := h.sorted
        rw [heq] at hsorted
        exact absurd hsorted
          (putFurther_not_sorted hi hk (Nat.lt_of_not_le hfront) _)
      · rintro ⟨_, h⟩
        obtain ⟨j, hj, hjn, hlt⟩ := h.below
        exact absurd hlt (Nat.not_lt.mpr (hbefore j (by omega)))
  · have hnotbelow : ¬ filtset.Inserts i d := by
      intro h
      obtain ⟨k, _, hk, hlt⟩ := h.below
      exact absurd hlt (Nat.not_lt.mpr (habove k hk))
    rw [or_iff_left hnotbelow]
    refine putBehind_renamed_iff hstores hi hfree ?_ heq
    intro k hk
    exact Nat.lt_of_le_of_ne (habove k hk) (hne k hk)

end PutIn

end Barley
