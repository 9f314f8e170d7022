/-
The hit counters under edits of the rule store.  They are indexed by tag, but
the shifting loops copy them along with the slots, so that the counters of the
tags behind an edit move by one tag.
-/
import Barley.RuleMap

namespace Barley

/-- The packet and the byte counter of a tag. -/
def Filtset.counters (filtset : Filtset) (tag : Nat) : Int × Int :=
  (filtset.pktNum tag, filtset.pktBytes tag)

/-- The same table with any counters. -/
def Filtset.withCounters (filtset : Filtset) (num bytes : Nat → Int) :
    Filtset :=
  { filtset with pktNum := num, pktBytes := bytes }

/-- A rule is installed under this tag. -/
def Filtset.HasTag (filtset : Filtset) (tag : Nat) : Prop :=
  (filtset.slotOf tag).isSome

/-- The counters of every installed tag but `tag` are as before. -/
def Filtset.KeepsCounters (filtset next : Filtset) (tag : Nat) : Prop :=
  ∀ u, u ≠ tag → filtset.HasTag u →
    next.pktNum u = filtset.pktNum u ∧ next.pktBytes u = filtset.pktBytes u

theorem Filtset.keepsCounters_iff {filtset next : Filtset} {tag : Nat} :
    filtset.KeepsCounters next tag ↔ ∀ u, u ≠ tag → filtset.HasTag u →
      next.counters u = filtset.counters u := by
  simp only [KeepsCounters, counters, Prod.mk.injEq]

theorem Filtset.counters_eq_iff {filtset : Filtset} {u v : Nat} :
    filtset.counters u = filtset.counters v ↔
      filtset.pktNum u = filtset.pktNum v ∧
        filtset.pktBytes u = filtset.pktBytes v := by
  simp only [counters, Prod.mk.injEq]

theorem moveFilter_counters (filtset : Filtset) (dst src : Nat) :
    (moveFilter filtset dst src).counters =
      Function.update filtset.counters (filtset.filtArr dst).cost
        (filtset.counters (filtset.filtArr src).cost) := by
  funext tag
  by_cases htag : tag = (filtset.filtArr dst).cost
  · subst htag
    rw [Function.update_self]
    simp only [Filtset.counters, moveFilter, Function.update_self]
  · rw [Function.update_of_ne htag]
    simp only [Filtset.counters, moveFilter, Function.update_of_ne htag]

theorem aclInitOneFilterByIndex_counters (filtset : Filtset) (index : Nat) :
    (aclInitOneFilterByIndex filtset index).counters =
      Function.update filtset.counters (filtset.filtArr index).cost (0, 0) := by
  funext tag
  by_cases htag : tag = (filtset.filtArr index).cost
  · subst htag
    rw [Function.update_self]
    simp only [Filtset.counters, aclInitOneFilterByIndex, Function.update_self]
  · rw [Function.update_of_ne htag]
    simp only [Filtset.counters, aclInitOneFilterByIndex,
      Function.update_of_ne htag]

/-- The costs a slot move copies between. -/
def Filtset.costs (filtset : Filtset) (move : Nat × Nat) : Nat × Nat :=
  ((filtset.filtArr move.1).cost, (filtset.filtArr move.2).cost)

/-- Slot moves that keep apart copy the counters between the tags the slots
held at first. -/
theorem moveAll_counters {filtset : Filtset} {moves : List (Nat × Nat)}
    (hapart : SortedSlots.Apart moves) :
    (moveAll filtset moves).counters =
      SortedSlots.copyAll (moves.map filtset.costs) filtset.counters := by
  induction moves generalizing filtset with
  | nil => rfl
  | cons move rest ih =>
      obtain ⟨hfirst, hrest⟩ := List.pairwise_cons.mp hapart
      have hcosts : rest.map (moveFilter filtset move.1 move.2).costs =
          rest.map filtset.costs := by
        apply List.map_congr_left
        intro other hother
        obtain ⟨hdst, hsrc⟩ := hfirst other hother
        rw [Filtset.costs, moveFilter_filtArr, Function.update_of_ne hdst.symm,
          Function.update_of_ne hsrc.symm]
        rfl
      have hstep : moveAll filtset (move :: rest) =
          moveAll (moveFilter filtset move.1 move.2) rest := rfl
      rw [hstep, ih hrest, hcosts, moveFilter_counters]
      rfl

/-- Closing a gap does not write the last slot. -/
theorem closing_last (filtset : Filtset) (i : Nat) :
    (moveAll filtset (SortedSlots.closing i filtset.numFilters)).filtArr
      (filtset.numFilters - 1) = filtset.filtArr (filtset.numFilters - 1) := by
  rw [moveAll_filtArr, SortedSlots.copyAll_of_not_mem]
  rintro ⟨dst, src⟩ hmem heq
  have hclosed := SortedSlots.mem_closing.mp hmem
  omega

/-- A quantity that neighbours share is shared by all slots from `i` on. -/
theorem shared_of_neighbours {V : Type} {f : Nat → V} {i count : Nat}
    (h : ∀ j, i ≤ j → j + 1 < count → f (j + 1) = f j) :
    ∀ k, i ≤ k → k < count → f k = f i := by
  intro k hk
  induction k, hk using Nat.le_induction with
  | base => exact fun _ => rfl
  | succ k hle ih =>
      intro hlt
      rw [h k hle hlt]
      exact ih (Nat.lt_of_succ_lt hlt)

section Stored

variable {filtset : Filtset} {map : RuleMap} (hstores : filtset.Stores map)

include hstores

theorem Filtset.Stores.hasTag_iff {tag : Nat} :
    filtset.HasTag tag ↔
      ∃ i < filtset.numFilters, (filtset.filtArr i).cost = tag := by
  rw [Filtset.HasTag, Option.isSome_iff_exists]
  constructor
  · rintro ⟨filt, hslot⟩
    obtain ⟨i, hi, rfl, rfl⟩ :=
      (SortedSlots.lookup_eq_some_iff hstores.sorted).mp hslot
    exact ⟨i, hi, rfl⟩
  · rintro ⟨i, hi, rfl⟩
    exact ⟨_, (SortedSlots.lookup_eq_some_iff hstores.sorted).mpr
      ⟨i, hi, rfl, rfl⟩⟩

theorem Filtset.Stores.cost_pos {i : Nat} (hi : i < filtset.numFilters) :
    0 < (filtset.filtArr i).cost := by
  have hinstalled : filtset.HasTag (filtset.filtArr i).cost :=
    hstores.hasTag_iff.mpr ⟨i, hi, rfl⟩
  rw [Filtset.HasTag, hstores.slots, Option.isSome_map] at hinstalled
  exact (hstores.tags _ hinstalled).1

/-- The first unused slot has no tag. -/
theorem Filtset.Stores.cost_unused :
    (filtset.filtArr filtset.numFilters).cost = 0 := by
  have hroom : filtset.numFilters < mppMaxFilters :=
    Nat.lt_of_le_of_lt hstores.numFilters_le (by decide)
  rw [hstores.cleared _ (Nat.le_refl _) hroom]
  rfl

theorem Filtset.Stores.cost_ne {a b : Nat} (hab : a < b)
    (hb : b ≤ filtset.numFilters) :
    (filtset.filtArr b).cost ≠ (filtset.filtArr a).cost := by
  rcases Nat.lt_or_eq_of_le hb with hlt | rfl
  · exact Nat.ne_of_gt (hstores.sorted a b hab hlt)
  · rw [hstores.cost_unused]
    exact Nat.ne_of_lt (hstores.cost_pos hab)

/-- Opening a gap gives each tag behind it the counters of the tag before. -/
theorem shiftBack_counters_next {i j : Nat} (hij : i ≤ j)
    (hj : j < filtset.numFilters) :
    (shiftBack filtset i).counters (filtset.filtArr (j + 1)).cost =
      filtset.counters (filtset.filtArr j).cost := by
  rw [shiftBack_eq, moveAll_counters SortedSlots.apart_opening_slots]
  apply SortedSlots.copyAll_of_mem
  · exact SortedSlots.apart_opening fun a b _ hab hb => hstores.cost_ne hab hb
  · exact List.mem_map_of_mem (SortedSlots.mem_opening.mpr ⟨rfl, hij, hj⟩)

omit hstores in
theorem shiftBack_counters_other {i u : Nat}
    (hother : ∀ j, i < j → j ≤ filtset.numFilters →
      (filtset.filtArr j).cost ≠ u) :
    (shiftBack filtset i).counters u = filtset.counters u := by
  rw [shiftBack_eq, moveAll_counters SortedSlots.apart_opening_slots]
  apply SortedSlots.copyAll_of_not_mem
  intro move hmove
  obtain ⟨⟨dst, src⟩, hmem, rfl⟩ := List.mem_map.mp hmove
  obtain ⟨rfl, hle, hlt⟩ := SortedSlots.mem_opening.mp hmem
  exact hother (src + 1) (Nat.lt_succ_of_le hle) hlt

/-- Closing a gap gives each tag from `i` on the counters of the tag behind,
and the last one none. -/
theorem moveForwardFilterFromIndex_counters {i k : Nat} (hik : i ≤ k)
    (hk : k < filtset.numFilters) :
    (moveForwardFilterFromIndex filtset i).counters (filtset.filtArr k).cost =
      if k + 1 < filtset.numFilters then
        filtset.counters (filtset.filtArr (k + 1)).cost
      else (0, 0) := by
  rw [moveForwardFilterFromIndex_eq, aclInitOneFilterByIndex_counters,
    closing_last]
  split
  · rename_i hlt
    rw [Function.update_of_ne (hstores.cost_ne (by omega) (by omega)).symm,
      moveAll_counters SortedSlots.apart_closing_slots]
    apply SortedSlots.copyAll_of_mem
    · exact SortedSlots.apart_closing fun a b _ hab hb =>
        (hstores.cost_ne hab (Nat.le_of_lt hb)).symm
    · exact List.mem_map_of_mem
        (SortedSlots.mem_closing.mpr ⟨rfl, hik, by omega⟩)
  · have heq : k = filtset.numFilters - 1 := by omega
    rw [heq, Function.update_self]

omit hstores in
theorem moveForwardFilterFromIndex_counters_other {i u : Nat}
    (hi : i < filtset.numFilters)
    (hother : ∀ j, i ≤ j → j < filtset.numFilters →
      (filtset.filtArr j).cost ≠ u) :
    (moveForwardFilterFromIndex filtset i).counters u =
      filtset.counters u := by
  rw [moveForwardFilterFromIndex_eq, aclInitOneFilterByIndex_counters,
    closing_last, Function.update_of_ne (hother _ (by omega) (by omega)).symm,
    moveAll_counters SortedSlots.apart_closing_slots]
  apply SortedSlots.copyAll_of_not_mem
  intro move hmove
  obtain ⟨⟨dst, src⟩, hmem, rfl⟩ := List.mem_map.mp hmove
  have hclosed := SortedSlots.mem_closing.mp hmem
  exact hother dst (by omega) (by omega)

/-- All tags above `tag` have the same counters. -/
def Filtset.SharedAbove (filtset : Filtset) (tag : Nat) : Prop :=
  ∀ u v, tag < u → tag < v → filtset.HasTag u → filtset.HasTag v →
    filtset.pktNum u = filtset.pktNum v ∧
      filtset.pktBytes u = filtset.pktBytes v

/-- All tags above `tag` have counted nothing. -/
def Filtset.IdleAbove (filtset : Filtset) (tag : Nat) : Prop :=
  ∀ u, tag < u → filtset.HasTag u →
    filtset.pktNum u = 0 ∧ filtset.pktBytes u = 0

omit hstores in
theorem setfilter_counters (index targetid : Nat) (args : RuleArgs)
    (cover : Bool) :
    (setfilter filtset index targetid args cover).counters =
      Function.update filtset.counters targetid (0, 0) := by
  funext tag
  by_cases htag : tag = targetid
  · subst htag
    rw [Function.update_self]
    simp only [Filtset.counters, setfilter, Function.update_self]
  · rw [Function.update_of_ne htag]
    simp only [Filtset.counters, setfilter, Function.update_of_ne htag]

/-- A new tag starts from zero. -/
theorem aclSetfilter_counters_self (targetid : Nat) (args : RuleArgs) :
    (aclSetfilter filtset targetid args).counters targetid = (0, 0) := by
  rcases aclSetfilter_cases hstores.sorted targetid args with
    ⟨i, _, _, _, heq⟩ | ⟨i, _, _, heq⟩
  · rw [heq, setfilter_counters, Function.update_self]
  · rw [heq, setfilter_counters, Function.update_self]

/-- Opening a gap at `i` leaves the counters alone exactly when the tags
behind it share theirs. -/
theorem shiftBack_keeps_iff {i : Nat} :
    (∀ k < filtset.numFilters,
      (shiftBack filtset i).counters (filtset.filtArr k).cost =
        filtset.counters (filtset.filtArr k).cost) ↔
      ∀ k, i ≤ k → k < filtset.numFilters →
        filtset.counters (filtset.filtArr k).cost =
          filtset.counters (filtset.filtArr i).cost := by
  constructor
  · intro hkept
    apply shared_of_neighbours
      (f := fun k => filtset.counters (filtset.filtArr k).cost)
    intro j hle hlt
    rw [← hkept (j + 1) hlt]
    exact shiftBack_counters_next hstores hle (Nat.lt_of_succ_lt hlt)
  · intro hshared k hk
    rcases Nat.lt_or_ge i k with hik | hki
    · obtain ⟨j, rfl⟩ := Nat.exists_eq_succ_of_ne_zero (Nat.ne_zero_of_lt hik)
      have hle : i ≤ j := Nat.le_of_lt_succ hik
      have hj : j < filtset.numFilters := Nat.lt_of_succ_lt hk
      rw [shiftBack_counters_next hstores hle hj, hshared j hle hj]
      exact (hshared (j + 1) (Nat.le_of_lt hik) hk).symm
    · apply shiftBack_counters_other
      intro j hij hj
      exact hstores.cost_ne (Nat.lt_of_le_of_lt hki hij) hj

/-- Closing the gap at `i` leaves the counters of the other tags alone exactly
when the tags behind it have none. -/
theorem moveForward_keeps_iff {i : Nat} (hi : i < filtset.numFilters) :
    (∀ k < filtset.numFilters, k ≠ i →
      (moveForwardFilterFromIndex filtset i).counters
          (filtset.filtArr k).cost =
        filtset.counters (filtset.filtArr k).cost) ↔
      ∀ k, i < k → k < filtset.numFilters →
        filtset.counters (filtset.filtArr k).cost = (0, 0) := by
  constructor
  · intro hkept k hik hk
    have hnext : ∀ j, i < j → j < filtset.numFilters →
        filtset.counters (filtset.filtArr j).cost =
          if j + 1 < filtset.numFilters then
            filtset.counters (filtset.filtArr (j + 1)).cost
          else (0, 0) := by
      intro j hij hj
      rw [← hkept j hj (Nat.ne_of_gt hij)]
      exact moveForwardFilterFromIndex_counters hstores (Nat.le_of_lt hij) hj
    have hshared : ∀ k, i + 1 ≤ k → k < filtset.numFilters →
        filtset.counters (filtset.filtArr k).cost =
          filtset.counters (filtset.filtArr (i + 1)).cost := by
      apply shared_of_neighbours
        (f := fun k => filtset.counters (filtset.filtArr k).cost)
      intro j hij hj
      rw [hnext j hij (Nat.lt_of_succ_lt hj), if_pos hj]
    have hlast := hnext (filtset.numFilters - 1) (by omega) (by omega)
    rw [if_neg (by omega)] at hlast
    calc
      filtset.counters (filtset.filtArr k).cost =
          filtset.counters (filtset.filtArr (i + 1)).cost := hshared k hik hk
      _ = filtset.counters (filtset.filtArr (filtset.numFilters - 1)).cost :=
        (hshared _ (by omega) (by omega)).symm
      _ = (0, 0) := hlast
  · intro hidle k hk hne
    rcases Nat.lt_or_gt_of_ne hne with hki | hik
    · apply moveForwardFilterFromIndex_counters_other hi
      intro j hij hj
      exact hstores.cost_ne (Nat.lt_of_lt_of_le hki hij) (Nat.le_of_lt hj)
    · rw [moveForwardFilterFromIndex_counters hstores (Nat.le_of_lt hik) hk,
        hidle k hik hk]
      split
      · rename_i hlt
        exact hidle (k + 1) (Nat.lt_succ_of_lt hik) hlt
      · rfl

/-- Setting a rule spares the other tags when it was installed already or when
the tags above it share their counters. -/
theorem aclSetfilter_keeps_iff (targetid : Nat) (args : RuleArgs) :
    filtset.KeepsCounters (aclSetfilter filtset targetid args) targetid ↔
      filtset.HasTag targetid ∨ filtset.SharedAbove targetid := by
  rw [Filtset.keepsCounters_iff]
  rcases aclSetfilter_cases hstores.sorted targetid args with
    ⟨i, hi, hbefore, hafter, heq⟩ | ⟨i, hi, rfl, heq⟩
  · have hne : ∀ k < filtset.numFilters,
        (filtset.filtArr k).cost ≠ targetid := by
      intro k hk
      rcases Nat.lt_or_ge k i with hki | hik
      · exact Nat.ne_of_lt (hbefore k hki)
      · exact Nat.ne_of_gt (hafter k hik hk)
    have habove : ∀ k < filtset.numFilters,
        targetid < (filtset.filtArr k).cost ↔ i ≤ k := by
      intro k hk
      constructor
      · intro hlt
        by_contra hki
        exact Nat.lt_asymm hlt (hbefore k (Nat.lt_of_not_le hki))
      · exact fun hik => hafter k hik hk
    have hnew : ¬ filtset.HasTag targetid := by
      rw [hstores.hasTag_iff]
      rintro ⟨k, hk, hcost⟩
      exact hne k hk hcost
    have hkept : (∀ u, u ≠ targetid → filtset.HasTag u →
        (aclSetfilter filtset targetid args).counters u =
          filtset.counters u) ↔
        ∀ k < filtset.numFilters,
          (shiftBack filtset i).counters (filtset.filtArr k).cost =
            filtset.counters (filtset.filtArr k).cost := by
      rw [heq, setfilter_counters]
      constructor
      · intro h k hk
        rw [← h _ (hne k hk) (hstores.hasTag_iff.mpr ⟨k, hk, rfl⟩),
          Function.update_of_ne (hne k hk)]
      · intro h u hu hinstalled
        obtain ⟨k, hk, rfl⟩ := hstores.hasTag_iff.mp hinstalled
        rw [Function.update_of_ne hu, h k hk]
    rw [hkept, shiftBack_keeps_iff hstores, or_iff_right hnew]
    constructor
    · intro hshared u v hu hv hiu hiv
      obtain ⟨j, hj, rfl⟩ := hstores.hasTag_iff.mp hiu
      obtain ⟨k, hk, rfl⟩ := hstores.hasTag_iff.mp hiv
      rw [← Filtset.counters_eq_iff, hshared j ((habove j hj).mp hu) hj,
        hshared k ((habove k hk).mp hv) hk]
    · intro hshared k hik hk
      have hik' : i < filtset.numFilters := Nat.lt_of_le_of_lt hik hk
      exact Filtset.counters_eq_iff.mpr (hshared _ _ (hafter k hik hk)
        (hafter i (Nat.le_refl i) hik')
        (hstores.hasTag_iff.mpr ⟨k, hk, rfl⟩)
        (hstores.hasTag_iff.mpr ⟨i, hik', rfl⟩))
  · rw [heq, setfilter_counters]
    have hinstalled : filtset.HasTag (filtset.filtArr i).cost :=
      hstores.hasTag_iff.mpr ⟨i, hi, rfl⟩
    exact ⟨fun _ => .inl hinstalled,
      fun _ u hu _ => Function.update_of_ne hu _ _⟩

/-- Deleting a rule spares the other tags when there is no such rule or when
the tags above it have counted nothing. -/
theorem aclDeleteOneFilterByTagid_keeps_iff (tagid : Nat) :
    filtset.KeepsCounters (aclDeleteOneFilterByTagid filtset tagid).2 tagid ↔
      ¬ filtset.HasTag tagid ∨ filtset.IdleAbove tagid := by
  rw [Filtset.keepsCounters_iff]
  cases hslot : filtset.slotOf tagid with
  | none =>
      have hnot : ¬ filtset.HasTag tagid := by
        rw [Filtset.HasTag, hslot]
        exact Bool.false_ne_true
      rw [aclDeleteOneFilterByTagid_of_absent hslot]
      exact ⟨fun _ => .inl hnot, fun _ _ _ _ => rfl⟩
  | some filt =>
      obtain ⟨i, hi, rfl, rfl, heq⟩ := aclDeleteOneFilterByTagid_eq hslot
      have hinstalled : filtset.HasTag (filtset.filtArr i).cost :=
        hstores.hasTag_iff.mpr ⟨i, hi, rfl⟩
      have hkept : (∀ u, u ≠ (filtset.filtArr i).cost →
          filtset.HasTag u →
          (aclDeleteOneFilterByTagid filtset
            (filtset.filtArr i).cost).2.counters u = filtset.counters u) ↔
          ∀ k < filtset.numFilters, k ≠ i →
            (moveForwardFilterFromIndex filtset i).counters
                (filtset.filtArr k).cost =
              filtset.counters (filtset.filtArr k).cost := by
        rw [heq]
        constructor
        · intro h k hk hne
          exact h _ (fun hcost => hne (SortedSlots.Sorted.injective
            hstores.sorted hk hi hcost))
            (hstores.hasTag_iff.mpr ⟨k, hk, rfl⟩)
        · intro h u hu hu'
          obtain ⟨k, hk, rfl⟩ := hstores.hasTag_iff.mp hu'
          exact h k hk fun hki => hu (hki ▸ rfl)
      rw [hkept, moveForward_keeps_iff hstores hi,
        or_iff_right (not_not.mpr hinstalled)]
      constructor
      · intro hidle u hu hu'
        obtain ⟨k, hk, rfl⟩ := hstores.hasTag_iff.mp hu'
        have hik : i < k := by
          by_contra hki
          rcases Nat.lt_or_eq_of_le (Nat.le_of_not_lt hki) with hlt | rfl
          · exact Nat.lt_asymm hu (hstores.sorted k i hlt hi)
          · exact Nat.lt_irrefl _ hu
        have hzero := hidle k hik hk
        exact ⟨congrArg Prod.fst hzero, congrArg Prod.snd hzero⟩
      · intro hidle k hik hk
        have hzero := hidle _ (hstores.sorted i k hik hk)
          (hstores.hasTag_iff.mpr ⟨k, hk, rfl⟩)
        exact Prod.ext hzero.1 hzero.2

end Stored

theorem runStore_withCounters_stores (ops : List StoreOp)
    (num bytes : Nat → Int) :
    ((runStore ops).withCounters num bytes).Stores (runMap ops) :=
  have h := runStore_stores ops
  ⟨h.sorted, h.slots, h.tags, h.cleared⟩

/-- Setting `targetid` leaves the counters of the other rules alone and starts
its own from zero. -/
def Filtset.SetSparesCounters (filtset : Filtset) (targetid : Nat)
    (args : RuleArgs) : Prop :=
  filtset.KeepsCounters (aclSetfilter filtset targetid args) targetid ∧
    (aclSetfilter filtset targetid args).pktNum targetid = 0 ∧
    (aclSetfilter filtset targetid args).pktBytes targetid = 0

/-- Deleting `tagid` leaves the counters of the other rules alone. -/
def Filtset.DeleteSparesCounters (filtset : Filtset) (tagid : Nat) : Prop :=
  filtset.KeepsCounters (aclDeleteOneFilterByTagid filtset tagid).2 tagid

/-- Counters survive an edit of any reachable store exactly when the shifting
loop has nothing to mix up: setting a tag spares the others when the tag was
installed already or all tags above it share their counters, deleting one when
it was not installed or no tag above it has counted anything.  A tag is at most
`ACL_MAX`, as the tool checks. -/
theorem counters_survive_iff (ops : List StoreOp) (num bytes : Nat → Int)
    (tag : Fin (aclMax + 1)) (args : RuleArgs) :
    (((runStore ops).withCounters num bytes).SetSparesCounters tag args ↔
      ((runStore ops).withCounters num bytes).HasTag tag ∨
        ((runStore ops).withCounters num bytes).SharedAbove tag) ∧
      (((runStore ops).withCounters num bytes).DeleteSparesCounters tag ↔
        ¬ ((runStore ops).withCounters num bytes).HasTag tag ∨
          ((runStore ops).withCounters num bytes).IdleAbove tag) := by
  have hstores := runStore_withCounters_stores ops num bytes
  have hzero := aclSetfilter_counters_self hstores tag args
  rw [Filtset.counters, Prod.mk.injEq] at hzero
  constructor
  · rw [Filtset.SetSparesCounters, aclSetfilter_keeps_iff hstores]
    exact ⟨fun h => h.1, fun h => ⟨h, hzero⟩⟩
  · exact aclDeleteOneFilterByTagid_keeps_iff hstores tag

section TwoRules

theorem halfword_pos : 0 < 2 ^ 16 := by decide

theorem address_pos : 0 < 2 ^ 32 := by decide

/-- A rule for every packet. -/
def everyPacket : RuleArgs where
  sip := 0
  dip := 0
  sp := 0
  dp := 0
  protocol := 0
  op := 0
  action := 0
  ruleType := 0
  ruleSource := 0
  sip_lt := address_pos
  dip_lt := address_pos
  sp_lt := halfword_pos
  dp_lt := halfword_pos
  protocol_lt := halfword_pos
  op_lt := halfword_pos
  action_lt := halfword_pos
  ruleType_lt := halfword_pos
  ruleSource_lt := halfword_pos

/-- Rules with the tags 2 and 3. -/
def twoRules : List StoreOp :=
  [.set 2 everyPacket (by decide) (by decide),
    .set 3 everyPacket (by decide) (by decide)]

/-- Tag 2 has counted two packets and tag 3 three. -/
def twoCounted : Filtset :=
  (runStore twoRules).withCounters (fun tag => tag) fun _ => 0

theorem twoCounted_hasTag :
    twoCounted.HasTag 2 ∧ twoCounted.HasTag 3 ∧
      ¬ twoCounted.HasTag 1 := by
  have hstores := runStore_withCounters_stores twoRules (fun tag => tag)
    fun _ => 0
  have hiff : ∀ tag, twoCounted.HasTag tag ↔
      (runMap twoRules tag).isSome := by
    intro tag
    rw [Filtset.HasTag, twoCounted, hstores.slots, Option.isSome_map]
  rw [hiff, hiff, hiff]
  decide

/-- A new rule below them gives tag 3 the packets of tag 2. -/
theorem twoCounted_not_spared :
    ¬ ∀ (ops : List StoreOp) (num bytes : Nat → Int) (tag : Nat)
      (args : RuleArgs), aclIndexStart ≤ tag → tag ≤ aclMax →
      ((runStore ops).withCounters num bytes).SetSparesCounters tag args ∧
        ((runStore ops).withCounters num bytes).DeleteSparesCounters tag := by
  intro hspared
  obtain ⟨htwo, hthree, hone⟩ := twoCounted_hasTag
  have hset := (hspared twoRules (fun tag => tag) (fun _ => 0) 1 everyPacket
    (by decide) (by decide)).1
  rcases (aclSetfilter_keeps_iff (runStore_withCounters_stores _ _ _) 1
    everyPacket).mp hset.1 with hinstalled | hshared
  · exact hone hinstalled
  · have hequal := (hshared 2 3 (by decide) (by decide) htwo hthree).1
    exact absurd hequal (by decide)

end TwoRules

end Barley
