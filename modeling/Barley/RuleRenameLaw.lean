/-
When renaming a rule works: trading places and taking the rule out and putting
it in again are each compared with what the renamed table has to be.
-/
import Barley.RulePutIn

namespace Barley

section Swap

variable {filtset : Filtset} {map : RuleMap} (hstores : filtset.Stores map)
  {i j : Nat} (hi : i < filtset.numFilters) (hj : j < filtset.numFilters)

theorem aclGetfilterState_of_absent {tag : Nat}
    (habsent : ¬ filtset.HasTag tag) :
    aclGetfilterState filtset tag = aclUnset := by
  have hnone : filtset.slotOf tag = none :=
    Option.not_isSome_iff_eq_none.mp habsent
  simp only [aclGetfilterState, find?_of_absent hnone]

include hstores

theorem find?_cost {i : Nat} (hi : i < filtset.numFilters) :
    (List.range filtset.numFilters).find? (fun k =>
      (filtset.filtArr i).cost = (filtset.filtArr k).cost) = some i := by
  obtain ⟨k, hk, hfind, _, hcost⟩ :=
    find?_of_present (hstores.slotOf_cost hi)
  have hki : k = i := SortedSlots.Sorted.injective hstores.sorted hk hi hcost
  rw [hfind, hki]

theorem aclGetfilterState_eq {i : Nat} (hi : i < filtset.numFilters) :
    aclGetfilterState filtset (filtset.filtArr i).cost =
      (filtset.filtArr i).state := by
  simp only [aclGetfilterState, find?_cost hstores hi]

theorem takeOutFilter_eq {i : Nat} (hi : i < filtset.numFilters) (d : Nat) :
    takeOutFilter filtset (filtset.filtArr i).cost d =
      (movedFilter filtset i d, filtset.without i) := by
  simp only [takeOutFilter, find?_cost hstores hi]
  congr 1
  split
  · rename_i hlast
    rw [hlast, Filtset.without, moveForwardFilterFromIndex_last]
    rfl
  · rw [moveForwardFilterFromIndex_numFilters]
    rfl

include hi hj

/-- The loop over all slots finds both. -/
theorem foldl_found :
    (List.range filtset.numFilters).foldl (fun (filt, sindex, dindex) k =>
      let (filt, sindex) :=
        if (filtset.filtArr i).cost = (filtset.filtArr k).cost then
          (copyOneFilter filtset k, k)
        else (filt, sindex)
      let dindex :=
        if (filtset.filtArr j).cost = (filtset.filtArr k).cost then k
        else dindex
      (filt, sindex, dindex)) (clearedFilter, 0, 0) =
      (copyOneFilter filtset i, i, j) := by
  have hinjective : ∀ {a b}, a < filtset.numFilters →
      b < filtset.numFilters →
      (filtset.filtArr a).cost = (filtset.filtArr b).cost → a = b :=
    fun ha hb heq => SortedSlots.Sorted.injective hstores.sorted ha hb heq
  have hsteps : ∀ m ≤ filtset.numFilters,
      (List.range m).foldl (fun (filt, sindex, dindex) k =>
        let (filt, sindex) :=
          if (filtset.filtArr i).cost = (filtset.filtArr k).cost then
            (copyOneFilter filtset k, k)
          else (filt, sindex)
        let dindex :=
          if (filtset.filtArr j).cost = (filtset.filtArr k).cost then k
          else dindex
        (filt, sindex, dindex)) (clearedFilter, 0, 0) =
        (if i < m then copyOneFilter filtset i else clearedFilter,
          if i < m then i else 0, if j < m then j else 0) := by
    intro m
    induction m with
    | zero => exact fun _ => rfl
    | succ m ih =>
        intro hm
        rw [List.range_succ, List.foldl_append, List.foldl_cons,
          List.foldl_nil, ih (Nat.le_of_succ_le hm)]
        have hfound : ∀ {a}, a < filtset.numFilters →
            ((filtset.filtArr a).cost = (filtset.filtArr m).cost ↔ a = m) :=
          fun ha => ⟨hinjective ha hm, fun heq => heq ▸ rfl⟩
        simp only [hfound hi, hfound hj, Nat.lt_succ_iff_lt_or_eq]
        by_cases him : i = m <;> by_cases hjm : j = m <;>
          simp [him, hjm]
  rw [hsteps _ (Nat.le_refl _), if_pos hi, if_pos hi, if_pos hj]

/-- What trading places leaves. -/
theorem updatefiltertagidByStagid_eq
    (hs : (filtset.filtArr i).state ≠ aclUnset)
    (hd : (filtset.filtArr j).state ≠ aclUnset) :
    ∃ next, updatefiltertagidByStagid filtset (filtset.filtArr i).cost
        (filtset.filtArr j).cost = some next ∧
      next.numFilters = filtset.numFilters ∧
      next.filtArr = Function.update (Function.update filtset.filtArr i
        { (filtset.filtArr i).take (filtset.filtArr j) with
          cost := (filtset.filtArr i).cost }) j
        { (filtset.filtArr j).take (filtset.filtArr i) with
          cost := (filtset.filtArr j).cost } ∧
      next.pktNum = Function.update (Function.update filtset.pktNum
        (filtset.filtArr i).cost (filtset.pktNum (filtset.filtArr j).cost))
        (filtset.filtArr j).cost (filtset.pktNum (filtset.filtArr i).cost) ∧
      next.pktBytes = filtset.pktBytes := by
  refine ⟨swapFiltStatistics (((restoreOneFilter (coverOneFilter filtset i j) j
    (copyOneFilter filtset i)).setCost i (filtset.filtArr i).cost).setCost j
    (filtset.filtArr j).cost) (filtset.filtArr i).cost
    (filtset.filtArr j).cost, ?_, ?_⟩
  · rw [updatefiltertagidByStagid, aclGetfilterState_eq hstores hi,
      aclGetfilterState_eq hstores hj, if_pos ⟨hs.symm, hd.symm⟩,
      foldl_found hstores hi hj]
  · refine ⟨rfl, ?_, rfl, rfl⟩
    funext k
    simp only [swapFiltStatistics, Filtset.setCost, restoreOneFilter,
      coverOneFilter]
    by_cases hkj : k = j
    · subst hkj
      by_cases hki : k = i
      · subst hki
        simp [Filter.take, copyOneFilter]
      · simp [Function.update_of_ne hki, Filter.take, copyOneFilter]
    · by_cases hki : k = i
      · subst hki
        simp [Function.update_of_ne hkj, Filter.take]
      · simp [Function.update_of_ne hkj, Function.update_of_ne hki]

/-- Trading places keeps the order of the tags, and writes the two slots. -/
theorem traded_slots {next : Filtset} {s d : Nat}
    (hs : (filtset.filtArr i).cost = s) (hd : (filtset.filtArr j).cost = d)
    (hnum : next.numFilters = filtset.numFilters)
    (hslots : next.filtArr = Function.update
      (Function.update filtset.filtArr i
        { (filtset.filtArr i).take (filtset.filtArr j) with cost := s }) j
        { (filtset.filtArr j).take (filtset.filtArr i) with cost := d }) :
    next.Sorted ∧ next.slotOf = Function.update
      (Function.update filtset.slotOf s
        (some { (filtset.filtArr i).take (filtset.filtArr j) with
          cost := s })) d
        (some { (filtset.filtArr j).take (filtset.filtArr i) with
          cost := d }) := by
  -- both writes keep the tag of the slot
  have hkeyI : Filter.cost { (filtset.filtArr i).take (filtset.filtArr j) with
      cost := s } = (filtset.filtArr i).cost := hs.symm
  have hfirst := SortedSlots.sorted_update hkeyI hstores.sorted
  have hkeyJ : Filter.cost { (filtset.filtArr j).take (filtset.filtArr i) with
      cost := d } = (Function.update filtset.filtArr i
        { (filtset.filtArr i).take (filtset.filtArr j) with
          cost := s } j).cost := by
    by_cases hji : j = i
    · rw [hji, Function.update_self, ← hs, ← hd, hji]
    · rw [Function.update_of_ne hji, hd]
  constructor
  · have hsecond := SortedSlots.sorted_update hkeyJ hfirst
    rw [← hslots, ← hnum] at hsecond
    exact hsecond
  · rw [Filtset.slotOf, hnum, hslots,
      SortedSlots.lookup_update hj hkeyJ hfirst,
      SortedSlots.lookup_update hi hkeyI hstores.sorted]
    rfl

/-- Two rules trade places exactly when they agree in what stays behind. -/
theorem traded_renamed_iff {next : Filtset}
    (hnum : next.numFilters = filtset.numFilters)
    (hslots : next.filtArr = Function.update
      (Function.update filtset.filtArr i
        { (filtset.filtArr i).take (filtset.filtArr j) with
          cost := (filtset.filtArr i).cost }) j
        { (filtset.filtArr j).take (filtset.filtArr i) with
          cost := (filtset.filtArr j).cost })
    (hpkts : next.pktNum = Function.update (Function.update filtset.pktNum
      (filtset.filtArr i).cost (filtset.pktNum (filtset.filtArr j).cost))
      (filtset.filtArr j).cost (filtset.pktNum (filtset.filtArr i).cost))
    (hbytes : next.pktBytes = filtset.pktBytes) :
    filtset.Renamed next (filtset.filtArr i).cost (filtset.filtArr j).cost ↔
      (filtset.filtArr i).SameFields (filtset.filtArr j) ∧
        filtset.pktBytes (filtset.filtArr i).cost =
          filtset.pktBytes (filtset.filtArr j).cost := by
  generalize hs : (filtset.filtArr i).cost = s at hslots hpkts ⊢
  generalize hd : (filtset.filtArr j).cost = d at hslots hpkts ⊢
  have htagS : filtset.HasTag s := hstores.hasTag_iff.mpr ⟨i, hi, hs⟩
  have htagD : filtset.HasTag d := hstores.hasTag_iff.mpr ⟨j, hj, hd⟩
  have hslotS : filtset.slotOf s = some (filtset.filtArr i) :=
    hs ▸ hstores.slotOf_cost hi
  have hslotD : filtset.slotOf d = some (filtset.filtArr j) :=
    hd ▸ hstores.slotOf_cost hj
  obtain ⟨hsorted, hslotOf⟩ := traded_slots hstores hi hj hs hd hnum hslots
  have hcounters : next.counters d =
      (filtset.pktNum s, filtset.pktBytes d) := by
    rw [Filtset.counters, hpkts, hbytes, Function.update_self]
  have hwhole : next.ruleOf d = filtset.ruleOf s ↔
      (filtset.filtArr i).SameFields (filtset.filtArr j) ∧
        filtset.pktBytes s = filtset.pktBytes d := by
    have hnextD : next.slotOf d = some
        { (filtset.filtArr j).take (filtset.filtArr i) with cost := d } := by
      rw [hslotOf, Function.update_self]
    rw [ruleOf_take_eq_iff hslotS hnextD, hcounters, Filtset.counters,
      Prod.mk.injEq, eq_comm (a := filtset.pktBytes d)]
    simp only [true_and]
  constructor
  · exact fun h => hwhole.mp (h.swapped htagS htagD).2
  · rintro ⟨hfields, hsame⟩
    have hmovedD := hwhole.mpr ⟨hfields, hsame⟩
    refine ⟨hsorted, Filtset.count_of_sorted hsorted, ?_,
      fun _ hnot => absurd htagD hnot, fun hnot => absurd htagS hnot, ?_⟩
    · intro _ _
      refine ⟨?_, hmovedD⟩
      by_cases hsd : s = d
      · subst hsd
        exact hmovedD
      · have hnextS : next.slotOf s = some
            { (filtset.filtArr i).take (filtset.filtArr j) with
              cost := s } := by
          rw [hslotOf, Function.update_of_ne hsd, Function.update_self]
        rw [ruleOf_take_eq_iff hslotD hnextS]
        refine ⟨hfields.symm, ?_⟩
        rw [Filtset.counters, Filtset.counters, hpkts, hbytes,
          Function.update_of_ne hsd, Function.update_self, hsame]
    · intro u hus hud
      rw [Filtset.ruleOf, Filtset.ruleOf, hslotOf,
        Function.update_of_ne hud, Function.update_of_ne hus]
      simp only [Filtset.ruleIn, hpkts, hbytes, Function.update_of_ne hud,
        Function.update_of_ne hus]

end Swap

section Rename

variable {filtset : Filtset} {map : RuleMap} (hstores : filtset.Stores map)
  {i : Nat} {d : Nat}

include hstores

/-- The tag of a slot is the tag of no other one. -/
theorem renamable_cost_iff (hi : i < filtset.numFilters) :
    filtset.Renamable (filtset.filtArr i).cost d ↔
      filtset.Trades i (filtset.filtArr i).cost d ∨
        filtset.Moveable i (filtset.filtArr i).cost d := by
  constructor
  · rintro ⟨k, hk, hcost, h⟩
    have hki : k = i :=
      SortedSlots.Sorted.injective hstores.sorted hk hi hcost
    exact hki ▸ h
  · exact fun h => ⟨i, hi, rfl, h⟩

/-- Both tags are found with a state: the rules trade places. -/
theorem renamed_iff_of_states (hi : i < filtset.numFilters)
    (hstateI : aclUnset ≠ aclGetfilterState filtset (filtset.filtArr i).cost)
    (hstateD : aclUnset ≠ aclGetfilterState filtset d) :
    filtset.Renamed
        (aclUpdatefiltertagidByStagid filtset (filtset.filtArr i).cost d)
        (filtset.filtArr i).cost d ↔
      filtset.Renamable (filtset.filtArr i).cost d := by
  have htagD : filtset.HasTag d := by
    by_contra hnot
    exact hstateD (aclGetfilterState_of_absent hnot).symm
  obtain ⟨j, hj, rfl⟩ := hstores.hasTag_iff.mp htagD
  rw [aclGetfilterState_eq hstores hi] at hstateI
  rw [aclGetfilterState_eq hstores hj] at hstateD
  obtain ⟨next, hnext, hnum, hslots, hpkts, hbytes⟩ :=
    updatefiltertagidByStagid_eq hstores hi hj hstateI.symm hstateD.symm
  have hnotmove : ¬ filtset.Moveable i (filtset.filtArr i).cost
      (filtset.filtArr j).cost := by
    rintro ⟨⟨_, hunset⟩ | hnot, _⟩
    · exact hstateI hunset.symm
    · exact hnot htagD
  rw [aclUpdatefiltertagidByStagid, hnext, renamable_cost_iff hstores hi,
    or_iff_left hnotmove]
  refine (traded_renamed_iff hstores hi hj hnum hslots hpkts hbytes).trans ?_
  constructor
  · rintro ⟨hfields, hsame⟩
    exact ⟨j, hj, rfl, hstateI.symm, hstateD.symm, hfields, hsame⟩
  · rintro ⟨k, hk, hcost, _, _, hfields, hsame⟩
    have hkj : k = j :=
      SortedSlots.Sorted.injective hstores.sorted hk hj hcost
    exact ⟨hkj ▸ hfields, hsame⟩

/-- The counters of the new tag in the table without the filter. -/
theorem without_counters_of_free (hi : i < filtset.numFilters)
    (hfree : d = (filtset.filtArr i).cost ∨ ¬ filtset.HasTag d) :
    (filtset.without i).counters d =
      (if d ≠ (filtset.filtArr i).cost then filtset.counters d
      else if i < filtset.numFilters - 1 then
        filtset.counters (filtset.rest i i).cost
      else (0, 0)) := by
  by_cases heq : d = (filtset.filtArr i).cost
  · rw [if_neg (not_not.mpr heq), heq]
    exact (without_counters_free hstores hi (d := d)).2
  · rw [if_pos heq]
    exact (without_counters_free hstores hi).1 heq (hfree.resolve_left heq)

/-- Otherwise the filter is taken out and put in again. -/
theorem renamed_iff_of_unset (hi : i < filtset.numFilters)
    (hd : aclIndexStart ≤ d)
    (hunset : ¬ (aclUnset ≠
        aclGetfilterState filtset (filtset.filtArr i).cost ∧
      aclUnset ≠ aclGetfilterState filtset d)) :
    filtset.Renamed
        (aclUpdatefiltertagidByStagid filtset (filtset.filtArr i).cost d)
        (filtset.filtArr i).cost d ↔
      filtset.Renamable (filtset.filtArr i).cost d := by
  have hmove : aclUpdatefiltertagidByStagid filtset (filtset.filtArr i).cost d =
      putInFilter (filtset.without i) d (movedFilter filtset i d) := by
    rw [aclUpdatefiltertagidByStagid, updatefiltertagidByStagid,
      if_neg hunset]
    simp only [takeOutFilter_eq hstores hi]
  have hnottrade : ¬ filtset.Trades i (filtset.filtArr i).cost d := by
    rintro ⟨j, hj, rfl, hstateI, hstateJ, _⟩
    refine hunset ⟨?_, ?_⟩
    · rw [aclGetfilterState_eq hstores hi]
      exact hstateI.symm
    · rw [aclGetfilterState_eq hstores hj]
      exact hstateJ.symm
  rw [hmove, renamable_cost_iff hstores hi, or_iff_right hnottrade]
  by_cases hdouble : filtset.HasTag d ∧ d ≠ (filtset.filtArr i).cost
  · constructor
    · intro h
      exact absurd h.sorted (putInFilter_not_sorted hstores hi rfl hdouble)
    · rintro ⟨⟨heq, _⟩ | hnot, _⟩
      · exact absurd heq hdouble.2
      · exact absurd hdouble.1 hnot
  · have hfree : d = (filtset.filtArr i).cost ∨ ¬ filtset.HasTag d := by
      by_cases heq : d = (filtset.filtArr i).cost
      · exact .inl heq
      · exact .inr fun htag => hdouble ⟨htag, heq⟩
    have hcases : (d = (filtset.filtArr i).cost ∧
        (filtset.filtArr i).state = aclUnset ∨ ¬ filtset.HasTag d) := by
      rcases hfree with heq | hnot
      · refine .inl ⟨heq, ?_⟩
        by_contra hstate
        rw [heq, aclGetfilterState_eq hstores hi, and_self] at hunset
        exact hunset (Ne.symm hstate)
      · exact .inr hnot
    rw [putInFilter_renamed_iff hstores hi hd hfree, Filtset.Moveable,
      without_counters_of_free hstores hi hfree]
    exact ⟨fun h => ⟨hcases, h⟩, fun h => h.2⟩

omit hstores in
/-- For a tag that is not installed a filter is added all the same. -/
theorem renamed_numFilters_of_absent {s : Nat} (hs : ¬ filtset.HasTag s)
    (d : Nat) :
    (aclUpdatefiltertagidByStagid filtset s d).numFilters =
      filtset.numFilters + 1 := by
  have hnone : filtset.slotOf s = none :=
    Option.not_isSome_iff_eq_none.mp hs
  rw [aclUpdatefiltertagidByStagid, updatefiltertagidByStagid,
    if_neg fun h => h.1 (aclGetfilterState_of_absent hs).symm]
  simp only [takeOutFilter, find?_of_absent hnone, putInFilter]
  split
  · simp only [restoreOneFilter, shiftBack_numFilters]
  · rfl

/-- Renaming does what it should exactly for the rules that are renamable. -/
theorem aclUpdatefiltertagidByStagid_renamed_iff {s : Nat}
    (hd : aclIndexStart ≤ d) :
    filtset.Renamed (aclUpdatefiltertagidByStagid filtset s d) s d ↔
      filtset.Renamable s d := by
  by_cases hs : filtset.HasTag s
  · obtain ⟨i, hi, rfl⟩ := hstores.hasTag_iff.mp hs
    by_cases hstates : aclUnset ≠
        aclGetfilterState filtset (filtset.filtArr i).cost ∧
          aclUnset ≠ aclGetfilterState filtset d
    · exact renamed_iff_of_states hstores hi hstates.1 hstates.2
    · exact renamed_iff_of_unset hstores hi hd hstates
  · constructor
    · intro h
      have hgrown := renamed_numFilters_of_absent hs d
      rw [h.unchanged hs] at hgrown
      exact absurd hgrown (Nat.ne_of_lt (Nat.lt_succ_self _))
    · rintro ⟨i, hi, hcost, _⟩
      exact absurd (hstores.hasTag_iff.mpr ⟨i, hi, hcost⟩) hs

end Rename

/-- In every reachable store, with any counters, renaming does what it should
exactly for the rules that are renamable. -/
theorem rename_iff (ops : List StoreOp) (num bytes : Nat → Int) (s d : Nat)
    (hd : aclIndexStart ≤ d) :
    ((runStore ops).withCounters num bytes).Renamed
        (aclUpdatefiltertagidByStagid
          ((runStore ops).withCounters num bytes) s d) s d ↔
      ((runStore ops).withCounters num bytes).Renamable s d :=
  aclUpdatefiltertagidByStagid_renamed_iff
    (runStore_withCounters_stores ops num bytes) hd

/-- Two rules with the same fields trade their tags. -/
theorem twoRules_renamed :
    ((runStore twoRules).withCounters (fun _ => 0) fun _ => 0).Renamed
      (aclUpdatefiltertagidByStagid ((runStore twoRules).withCounters
        (fun _ => 0) fun _ => 0) 2 3) 2 3 := by
  have hstores := runStore_withCounters_stores twoRules (fun _ => 0) fun _ => 0
  have hplace : ∀ tag entry, runMap twoRules tag = some entry →
      ∃ i < (runStore twoRules).numFilters,
        (runStore twoRules).filtArr i = entry.filter tag := by
    intro tag entry hentry
    have hslot := hstores.slots tag
    rw [hentry] at hslot
    obtain ⟨i, hi, hfilter, _⟩ :=
      (SortedSlots.lookup_eq_some_iff hstores.sorted).mp hslot
    exact ⟨i, hi, hfilter⟩
  obtain ⟨i, hi, hfirst⟩ := hplace 2 _ rfl
  obtain ⟨j, hj, hsecond⟩ := hplace 3 _ rfl
  refine (rename_iff twoRules _ _ 2 3 (by decide)).mpr ⟨i, hi,
    congrArg Filter.cost hfirst,
    .inl ⟨j, hj, congrArg Filter.cost hsecond, ?_, ?_, ?_, rfl⟩⟩
  · show ((runStore twoRules).filtArr i).state ≠ _
    rw [hfirst]
    decide
  · show ((runStore twoRules).filtArr j).state ≠ _
    rw [hsecond]
    decide
  · show Filter.SameFields ((runStore twoRules).filtArr i)
      ((runStore twoRules).filtArr j)
    rw [hfirst, hsecond]
    exact ⟨rfl, rfl, rfl, rfl⟩

/-- Renaming a tag that is not installed adds a filter. -/
theorem twoCounted_not_renamed :
    ¬ ∀ (ops : List StoreOp) (num bytes : Nat → Int) (s d : Nat),
      aclIndexStart ≤ s → s ≤ aclMax → aclIndexStart ≤ d → d ≤ aclMax →
      ((runStore ops).withCounters num bytes).Renamed
        (aclUpdatefiltertagidByStagid
          ((runStore ops).withCounters num bytes) s d) s d := by
  intro hrenamed
  have hstores := runStore_withCounters_stores twoRules (fun tag => tag)
    fun _ => 0
  have hone := hrenamed twoRules (fun tag => tag) (fun _ => 0) 1 2 (by decide)
    (by decide) (by decide) (by decide)
  obtain ⟨i, hi, hcost, _⟩ := (aclUpdatefiltertagidByStagid_renamed_iff hstores
    (by decide)).mp hone
  exact twoCounted_hasTag.2.2 (hstores.hasTag_iff.mpr ⟨i, hi, hcost⟩)

end Barley
