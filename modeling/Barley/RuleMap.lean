/-
The rule store as a finite map from tags to rules.  The array operations
refine updates of the map, over every history of calls from the empty store.
-/
import Barley.RuleStore
import Barley.SortedSlots
import Mathlib.Data.Finset.Interval
import Mathlib.Order.Interval.Finset.Nat

namespace Barley

/-- The contents of one tag: the rule last set for it and its two flags. -/
structure RuleEntry where
  args : RuleArgs
  state : Nat
  sync : Nat

/-- The store as its users see it. -/
abbrev RuleMap := Nat → Option RuleEntry

/-- A call that changes the store.  Tags are set within `ACL_INDEX_START` and
`ACL_MAX`; the other calls take any tag and any flag. -/
inductive StoreOp where
  | set (targetid : Nat) (args : RuleArgs) (hstart : aclIndexStart ≤ targetid)
      (hmax : targetid ≤ aclMax)
  | delete (tagid : Nat)
  | enableOne (targetid enable : Nat)
  | enableAll (enable : Nat)

/-- The call on the filter array. -/
def StoreOp.apply : StoreOp → Filtset → Filtset
  | .set targetid args _ _, filtset => aclSetfilter filtset targetid args
  | .delete tagid, filtset => (aclDeleteOneFilterByTagid filtset tagid).2
  | .enableOne targetid enable, filtset =>
      (aclEnableOneFilterByTagid filtset targetid enable).2
  | .enableAll enable, filtset => (aclEnableAllFilter filtset enable).2

/-- The call on the map: a rule is set enabled and unsynced. -/
def StoreOp.applyMap : StoreOp → RuleMap → RuleMap
  | .set targetid args _ _, map =>
      Function.update map targetid (some ⟨args, aclEnable, aclNosync⟩)
  | .delete tagid, map => Function.update map tagid none
  | .enableOne targetid enable, map =>
      Function.update map targetid
        ((map targetid).map fun entry => { entry with state := enable })
  | .enableAll enable, map => fun tag =>
      (map tag).map fun entry => { entry with state := enable }

/-- The store with no rule. -/
def emptyFiltset : Filtset :=
  ⟨0, fun _ => clearedFilter, fun _ => 0, fun _ => 0⟩

/-- A history of calls, first call first.  Irreducible, so that proofs go
through the map and never replay a history. -/
@[irreducible] def runStore (ops : List StoreOp) : Filtset :=
  ops.foldl (fun filtset op => op.apply filtset) emptyFiltset

def runMap (ops : List StoreOp) : RuleMap :=
  ops.foldl (fun map op => op.applyMap map) fun _ => none

/-- The slot that stands for an entry of the map. -/
def RuleEntry.filter (entry : RuleEntry) (tag : Nat) : Filter where
  cost := tag
  sync := entry.sync
  state := entry.state
  op := entry.args.op
  action := entry.args.action
  ruleType := entry.args.ruleType
  ruleSource := entry.args.ruleSource
  dim := entry.args.dim

/-- The slot of a tag. -/
def Filtset.slotOf (filtset : Filtset) : Nat → Option Filter :=
  SortedSlots.lookup Filter.cost filtset.filtArr filtset.numFilters

/-- The slots that are not in use are cleared. -/
def Filtset.Cleared (filtset : Filtset) : Prop :=
  ∀ i, filtset.numFilters ≤ i → i < mppMaxFilters →
    filtset.filtArr i = clearedFilter

/-- The array stands for the map. -/
structure Filtset.Stores (filtset : Filtset) (map : RuleMap) : Prop where
  sorted : SortedSlots.Sorted Filter.cost filtset.filtArr filtset.numFilters
  slots : ∀ tag, filtset.slotOf tag =
    (map tag).map fun entry => entry.filter tag
  tags : ∀ tag, (map tag).isSome → aclIndexStart ≤ tag ∧ tag ≤ aclMax
  cleared : filtset.Cleared

theorem emptyFiltset_stores : emptyFiltset.Stores fun _ => none where
  sorted := fun _ _ _ hj => absurd hj (Nat.not_lt_zero _)
  slots := fun _ => rfl
  tags := fun _ h => by simp at h
  cleared := fun _ _ _ => rfl

theorem moveFilter_filtArr (filtset : Filtset) (dst src : Nat) :
    (moveFilter filtset dst src).filtArr =
      Function.update filtset.filtArr dst (filtset.filtArr src) := rfl

/-- Both shifting loops are a sequence of slot moves. -/
def moveAll (filtset : Filtset) (moves : List (Nat × Nat)) : Filtset :=
  moves.foldl (fun filtset move => moveFilter filtset move.1 move.2) filtset

theorem moveAll_filtArr (filtset : Filtset) (moves : List (Nat × Nat)) :
    (moveAll filtset moves).filtArr =
      SortedSlots.copyAll moves filtset.filtArr := by
  induction moves generalizing filtset with
  | nil => rfl
  | cons move rest ih => exact ih _

theorem moveAll_numFilters (filtset : Filtset) (moves : List (Nat × Nat)) :
    (moveAll filtset moves).numFilters = filtset.numFilters := by
  induction moves generalizing filtset with
  | nil => rfl
  | cons move rest ih => exact ih _

theorem shiftBack_eq (filtset : Filtset) (i : Nat) :
    shiftBack filtset i =
      moveAll filtset (SortedSlots.opening i filtset.numFilters) := by
  rw [moveAll, SortedSlots.opening, List.foldl_map]
  rfl

theorem moveForwardFilterFromIndex_eq (filtset : Filtset) (index : Nat) :
    moveForwardFilterFromIndex filtset index =
      aclInitOneFilterByIndex
        (moveAll filtset (SortedSlots.closing index filtset.numFilters))
        (filtset.numFilters - 1) := by
  rw [moveAll, SortedSlots.closing, List.foldl_map]
  rfl

/-- Opening a gap at `i` moves the used slots from `i` on by one. -/
theorem shiftBack_filtArr (filtset : Filtset) (i k : Nat) :
    (shiftBack filtset i).filtArr k =
      if i < k ∧ k ≤ filtset.numFilters then filtset.filtArr (k - 1)
      else filtset.filtArr k := by
  rw [shiftBack_eq, moveAll_filtArr]
  split
  · apply SortedSlots.copyAll_of_mem
    · exact SortedSlots.apart_opening_slots
    · exact SortedSlots.mem_opening.mpr (by omega)
  · apply SortedSlots.copyAll_of_not_mem
    rintro ⟨dst, src⟩ hmem rfl
    have hopened := SortedSlots.mem_opening.mp hmem
    omega

theorem shiftBack_numFilters (filtset : Filtset) (i : Nat) :
    (shiftBack filtset i).numFilters = filtset.numFilters := by
  rw [shiftBack_eq, moveAll_numFilters]

/-- Closing the gap at `index` moves the used slots behind it by one and
clears the last one. -/
theorem moveForwardFilterFromIndex_filtArr (filtset : Filtset)
    {index : Nat} (hindex : index < filtset.numFilters) (k : Nat) :
    (moveForwardFilterFromIndex filtset index).filtArr k =
      if k = filtset.numFilters - 1 then clearedFilter
      else if index ≤ k ∧ k < filtset.numFilters - 1 then
        filtset.filtArr (k + 1)
      else filtset.filtArr k := by
  rw [moveForwardFilterFromIndex_eq]
  simp only [aclInitOneFilterByIndex]
  by_cases hk : k = filtset.numFilters - 1
  · rw [if_pos hk, hk, Function.update_self]
  · rw [if_neg hk, Function.update_of_ne hk, moveAll_filtArr]
    split
    · apply SortedSlots.copyAll_of_mem
      · exact SortedSlots.apart_closing_slots
      · exact SortedSlots.mem_closing.mpr (by omega)
    · apply SortedSlots.copyAll_of_not_mem
      rintro ⟨dst, src⟩ hmem rfl
      have hclosed := SortedSlots.mem_closing.mp hmem
      omega

theorem moveForwardFilterFromIndex_numFilters (filtset : Filtset)
    (index : Nat) :
    (moveForwardFilterFromIndex filtset index).numFilters =
      filtset.numFilters := by
  rw [moveForwardFilterFromIndex_eq]
  exact moveAll_numFilters _ _

/-- The slot `setfilter` writes. -/
def newFilter (targetid : Nat) (args : RuleArgs) : Filter :=
  RuleEntry.filter ⟨args, aclEnable, aclNosync⟩ targetid

/-- What a call may do to the array: the used slots stay sorted, the map of
the slots changes as said, and the unused slots stay cleared. -/
structure Filtset.Moves (filtset next : Filtset)
    (slots : Nat → Option Filter) : Prop where
  sorted : SortedSlots.Sorted Filter.cost next.filtArr next.numFilters
  slots : next.slotOf = slots
  cleared : filtset.Cleared → next.Cleared

section Steps

variable {filtset : Filtset}
  (hsorted : SortedSlots.Sorted Filter.cost filtset.filtArr filtset.numFilters)

include hsorted

/-- A filter set into the gap at `i` is inserted there. -/
theorem setfilter_shiftBack_moves {targetid i : Nat} (args : RuleArgs)
    (hi : i ≤ filtset.numFilters)
    (hbefore : ∀ j < i, (filtset.filtArr j).cost < targetid)
    (hafter : ∀ j, i ≤ j → j < filtset.numFilters →
      targetid < (filtset.filtArr j).cost) :
    filtset.Moves (setfilter (shiftBack filtset i) i targetid args false)
      (Function.update filtset.slotOf targetid
        (some (newFilter targetid args))) := by
  have hnum : (setfilter (shiftBack filtset i) i targetid args
      false).numFilters = filtset.numFilters + 1 :=
    congrArg (· + 1) (shiftBack_numFilters filtset i)
  have hslot : ∀ k, (setfilter (shiftBack filtset i) i targetid args
      false).filtArr k = Function.update (shiftBack filtset i).filtArr i
        (newFilter targetid args) k := fun _ => rfl
  have hsame : ∀ k < filtset.numFilters + 1,
      (setfilter (shiftBack filtset i) i targetid args false).filtArr k =
        SortedSlots.insertSlot filtset.filtArr i (newFilter targetid args)
          k := by
    intro k hk
    rw [hslot, SortedSlots.insertSlot]
    by_cases heq : k = i
    · subst heq
      rw [Function.update_self, if_neg (Nat.lt_irrefl k), if_pos rfl]
    · rw [Function.update_of_ne heq, shiftBack_filtArr]
      by_cases hlt : k < i
      · rw [if_neg (by omega), if_pos hlt]
      · rw [if_pos (by omega), if_neg hlt, if_neg heq]
  have hcost : (newFilter targetid args).cost = targetid := rfl
  rw [← hcost] at hbefore hafter
  have hinserted :=
    SortedSlots.sorted_insertSlot hi hbefore hafter hsorted
  constructor
  · rw [hnum]
    exact SortedSlots.sorted_congr hsame hinserted
  · rw [Filtset.slotOf, hnum, SortedSlots.lookup_congr hsame hinserted]
    exact SortedSlots.lookup_insertSlot hi hbefore hafter hsorted
  · intro hcleared k hk hmax
    rw [hnum] at hk
    rw [hslot, Function.update_of_ne (by omega), shiftBack_filtArr,
      if_neg (by omega)]
    exact hcleared k (by omega) hmax

/-- What `acl_setfilter` does: a new tag is put into a gap that keeps the
array sorted, and the slot of a known one is overwritten. -/
theorem aclSetfilter_cases (targetid : Nat) (args : RuleArgs) :
    (∃ i ≤ filtset.numFilters,
      (∀ j < i, (filtset.filtArr j).cost < targetid) ∧
      (∀ j, i ≤ j → j < filtset.numFilters →
        targetid < (filtset.filtArr j).cost) ∧
      aclSetfilter filtset targetid args =
        setfilter (shiftBack filtset i) i targetid args false) ∨
    ∃ i < filtset.numFilters, (filtset.filtArr i).cost = targetid ∧
      aclSetfilter filtset targetid args =
        setfilter filtset i targetid args true := by
  unfold aclSetfilter
  simp only
  cases hfind : (List.range filtset.numFilters).find? fun i =>
      targetid < (filtset.filtArr i).cost ∨
        targetid = (filtset.filtArr i).cost with
  | none =>
      have hbelow : ∀ j < filtset.numFilters,
          (filtset.filtArr j).cost < targetid := by
        intro j hj
        have hnone := List.find?_eq_none.mp hfind j (List.mem_range.mpr hj)
        simp only [decide_eq_true_eq] at hnone
        omega
      have hnoshift : shiftBack filtset filtset.numFilters = filtset := by
        simp [shiftBack]
      refine .inl ⟨filtset.numFilters, Nat.le_refl _, hbelow, ?_, ?_⟩
      · exact fun j hle hlt => absurd hlt (Nat.not_lt.mpr hle)
      · rw [hnoshift]
  | some i =>
      obtain ⟨hfound, hmem, hfirst⟩ := List.find?_range_eq_some.mp hfind
      have hi := List.mem_range.mp hmem
      simp only [decide_eq_true_eq] at hfound
      dsimp only
      split
      · -- a larger tag: everything before it is smaller, the rest is larger
        rename_i hlt
        refine .inl ⟨i, Nat.le_of_lt hi, ?_, ?_, rfl⟩
        · intro j hj
          have hnot := hfirst j hj
          simp only [Bool.not_eq_true', decide_eq_false_iff_not] at hnot
          omega
        · intro j hle hj
          rcases Nat.lt_or_eq_of_le hle with hij | rfl
          · exact Nat.lt_trans hlt (hsorted i j hij hj)
          · exact hlt
      · -- the tag itself: its slot is overwritten
        exact .inr ⟨i, hi, by omega, rfl⟩

/-- `acl_setfilter` changes the slot of its tag and no other. -/
theorem aclSetfilter_moves (targetid : Nat) (args : RuleArgs) :
    filtset.Moves (aclSetfilter filtset targetid args)
      (Function.update filtset.slotOf targetid
        (some (newFilter targetid args))) := by
  rcases aclSetfilter_cases hsorted targetid args with
    ⟨i, hi, hbefore, hafter, heq⟩ | ⟨i, hi, hcost, heq⟩
  · rw [heq]
    exact setfilter_shiftBack_moves hsorted args hi hbefore hafter
  · rw [heq]
    have hkey : (newFilter targetid args).cost = (filtset.filtArr i).cost :=
      hcost.symm
    constructor
    · exact SortedSlots.sorted_update hkey hsorted
    · exact SortedSlots.lookup_update hi hkey hsorted
    · intro hcleared k hk hmax
      have hk' : filtset.numFilters ≤ k := hk
      exact (Function.update_of_ne (by omega) _ _).trans
        (hcleared k hk' hmax)

omit hsorted in
theorem find?_of_absent {tag : Nat} (habsent : filtset.slotOf tag = none) :
    (List.range filtset.numFilters).find? (fun i =>
      tag = (filtset.filtArr i).cost) = none := by
  rw [List.find?_eq_none]
  intro i hi
  have hne := SortedSlots.lookup_eq_none_iff.mp habsent i
    (List.mem_range.mp hi)
  simpa using Ne.symm hne

omit hsorted in
theorem aclDeleteOneFilterByTagid_of_absent {tagid : Nat}
    (habsent : filtset.slotOf tagid = none) :
    aclDeleteOneFilterByTagid filtset tagid = (.notfound, filtset) := by
  simp only [aclDeleteOneFilterByTagid, find?_of_absent habsent]

omit hsorted in
/-- The search for a tag finds the slot that holds it. -/
theorem find?_of_present {tag : Nat} {filt : Filter}
    (hpresent : filtset.slotOf tag = some filt) :
    ∃ i < filtset.numFilters,
      (List.range filtset.numFilters).find? (fun i =>
        tag = (filtset.filtArr i).cost) = some i ∧
      filtset.filtArr i = filt ∧ (filtset.filtArr i).cost = tag := by
  obtain ⟨i, hfind, rfl⟩ := Option.map_eq_some_iff.mp hpresent
  simp only [eq_comm (b := tag)] at hfind
  obtain ⟨hcost, hmem, _⟩ := List.find?_range_eq_some.mp hfind
  exact ⟨i, List.mem_range.mp hmem, hfind, rfl,
    (of_decide_eq_true hcost).symm⟩

omit hsorted in
/-- Clearing the last used slot is closing the gap there. -/
theorem moveForwardFilterFromIndex_last :
    moveForwardFilterFromIndex filtset (filtset.numFilters - 1) =
      aclInitOneFilterByIndex filtset (filtset.numFilters - 1) := by
  simp [moveForwardFilterFromIndex]

omit hsorted in
/-- What `acl_DeleteOneFilter_by_tagid` does with an installed tag. -/
theorem aclDeleteOneFilterByTagid_eq {tagid : Nat} {filt : Filter}
    (hpresent : filtset.slotOf tagid = some filt) :
    ∃ i < filtset.numFilters, filtset.filtArr i = filt ∧
      (filtset.filtArr i).cost = tagid ∧
      aclDeleteOneFilterByTagid filtset tagid =
        (.success, { moveForwardFilterFromIndex filtset i with
          numFilters := filtset.numFilters - 1 }) := by
  obtain ⟨i, hi, hfind, hfilt, hcost⟩ := find?_of_present hpresent
  refine ⟨i, hi, hfilt, hcost, ?_⟩
  simp only [aclDeleteOneFilterByTagid, hfind]
  split
  · rename_i hlast
    rw [hlast, moveForwardFilterFromIndex_last]
    rfl
  · rw [moveForwardFilterFromIndex_numFilters]

/-- `acl_DeleteOneFilter_by_tagid` empties the slot of its tag. -/
theorem aclDeleteOneFilterByTagid_of_present {tagid : Nat} {filt : Filter}
    (hpresent : filtset.slotOf tagid = some filt) :
    (aclDeleteOneFilterByTagid filtset tagid).1 = .success ∧
      filtset.Moves (aclDeleteOneFilterByTagid filtset tagid).2
        (Function.update filtset.slotOf tagid none) := by
  obtain ⟨i, hi, rfl, rfl, heq⟩ := aclDeleteOneFilterByTagid_eq hpresent
  rw [heq]
  refine ⟨rfl, ?_⟩
  have hsame : ∀ k < filtset.numFilters - 1,
      (moveForwardFilterFromIndex filtset i).filtArr k =
        SortedSlots.removeSlot filtset.filtArr i k := by
    intro k hk
    rw [moveForwardFilterFromIndex_filtArr filtset hi,
      if_neg (Nat.ne_of_lt hk), SortedSlots.removeSlot]
    by_cases hlt : k < i
    · rw [if_neg (by omega), if_pos hlt]
    · rw [if_pos (by omega), if_neg hlt]
  have hremoved :
      SortedSlots.Sorted Filter.cost (SortedSlots.removeSlot filtset.filtArr i)
        (filtset.numFilters - 1) :=
    SortedSlots.sorted_removeSlot hsorted
  constructor
  · exact SortedSlots.sorted_congr hsame hremoved
  · rw [Filtset.slotOf, SortedSlots.lookup_congr hsame hremoved]
    exact SortedSlots.lookup_removeSlot hi hsorted
  · intro hcleared k hk hmax
    have hk' : filtset.numFilters - 1 ≤ k := hk
    simp only [moveForwardFilterFromIndex_filtArr filtset hi]
    split
    · rfl
    · rw [if_neg (by omega)]
      exact hcleared k (by omega) hmax

theorem aclEnableOneFilterByTagid_moves (targetid enable : Nat) :
    filtset.Moves (aclEnableOneFilterByTagid filtset targetid enable).2
      (Function.update filtset.slotOf targetid ((filtset.slotOf targetid).map
        fun filt => { filt with state := enable })) := by
  cases hslot : filtset.slotOf targetid with
  | none =>
      simp only [aclEnableOneFilterByTagid, find?_of_absent hslot]
      refine ⟨hsorted, ?_, id⟩
      rw [Option.map_none, ← hslot, Function.update_eq_self]
  | some filt =>
      obtain ⟨i, hi, hfind, rfl, rfl⟩ := find?_of_present hslot
      simp only [aclEnableOneFilterByTagid, hfind]
      constructor
      · exact SortedSlots.sorted_update rfl hsorted
      · exact SortedSlots.lookup_update hi rfl hsorted
      · intro hcleared k hk hmax
        have hk' : filtset.numFilters ≤ k := hk
        exact (Function.update_of_ne (by omega) _ _).trans
          (hcleared k hk' hmax)

theorem aclEnableAllFilter_moves (enable : Nat) :
    filtset.Moves (aclEnableAllFilter filtset enable).2 fun tag =>
      (filtset.slotOf tag).map fun filt => { filt with state := enable } := by
  have hslot : ∀ i < filtset.numFilters,
      (aclEnableAllFilter filtset enable).2.filtArr i =
        { filtset.filtArr i with state := enable } := fun i hi => if_pos hi
  constructor
  · intro i j hij hj
    have hj' : j < filtset.numFilters := hj
    rw [hslot i (Nat.lt_trans hij hj'), hslot j hj']
    exact hsorted i j hij hj'
  · funext tag
    exact SortedSlots.lookup_map
      (f := fun filt => { filt with state := enable }) (fun _ => rfl) hslot
      hsorted tag
  · intro hcleared k hk hmax
    have hk' : filtset.numFilters ≤ k := hk
    exact (if_neg (Nat.not_lt.mpr hk')).trans (hcleared k hk' hmax)

end Steps

/-- Entry by entry, the map of the slots follows the map of the rules. -/
theorem Filtset.Stores.of_moves {filtset next : Filtset} {map : RuleMap}
    {slots : Nat → Option Filter} {map' : RuleMap}
    (h : filtset.Stores map) (hmoves : filtset.Moves next slots)
    (hslots : ∀ tag, slots tag =
      (map' tag).map fun entry => entry.filter tag)
    (htags : ∀ tag, (map' tag).isSome →
      aclIndexStart ≤ tag ∧ tag ≤ aclMax) :
    next.Stores map' where
  sorted := hmoves.sorted
  slots := fun tag => by rw [hmoves.slots, hslots]
  tags := htags
  cleared := hmoves.cleared h.cleared

/-- One call keeps the array in step with the map. -/
theorem StoreOp.apply_stores {filtset : Filtset} {map : RuleMap}
    (h : filtset.Stores map) (op : StoreOp) :
    (op.apply filtset).Stores (op.applyMap map) := by
  cases op with
  | set targetid args hstart hmax =>
      refine h.of_moves (aclSetfilter_moves h.sorted targetid args) ?_ ?_
      · intro tag
        by_cases htag : tag = targetid
        · subst htag
          simp [StoreOp.applyMap, newFilter]
        · simp [StoreOp.applyMap, htag, h.slots]
      · intro tag hsome
        by_cases htag : tag = targetid
        · exact htag ▸ ⟨hstart, hmax⟩
        · exact h.tags tag (by simpa [StoreOp.applyMap, htag] using hsome)
  | delete tagid =>
      have htags : ∀ tag, ((StoreOp.delete tagid).applyMap map tag).isSome →
          aclIndexStart ≤ tag ∧ tag ≤ aclMax := by
        intro tag hsome
        by_cases htag : tag = tagid
        · simp [StoreOp.applyMap, htag] at hsome
        · exact h.tags tag (by simpa [StoreOp.applyMap, htag] using hsome)
      have hslots : ∀ tag, Function.update filtset.slotOf tagid none tag =
          ((StoreOp.delete tagid).applyMap map tag).map
            fun entry => entry.filter tag := by
        intro tag
        by_cases htag : tag = tagid
        · simp [StoreOp.applyMap, htag]
        · simp [StoreOp.applyMap, htag, h.slots]
      cases hslot : filtset.slotOf tagid with
      | none =>
          rw [StoreOp.apply, aclDeleteOneFilterByTagid_of_absent hslot]
          refine h.of_moves ⟨h.sorted, ?_, id⟩ hslots htags
          rw [← hslot, Function.update_eq_self]
      | some filt =>
          exact h.of_moves (aclDeleteOneFilterByTagid_of_present h.sorted
            hslot).2 hslots htags
  | enableOne targetid enable =>
      refine h.of_moves
        (aclEnableOneFilterByTagid_moves h.sorted targetid enable) ?_ ?_
      · intro tag
        by_cases htag : tag = targetid
        · subst htag
          simp [StoreOp.applyMap, h.slots, Function.comp_def,
            RuleEntry.filter]
        · simp [StoreOp.applyMap, htag, h.slots]
      · intro tag hsome
        by_cases htag : tag = targetid
        · subst htag
          exact h.tags tag (by simpa [StoreOp.applyMap] using hsome)
        · exact h.tags tag (by simpa [StoreOp.applyMap, htag] using hsome)
  | enableAll enable =>
      refine h.of_moves (aclEnableAllFilter_moves h.sorted enable) ?_ ?_
      · intro tag
        simp [StoreOp.applyMap, h.slots, Function.comp_def, RuleEntry.filter]
      · intro tag hsome
        exact h.tags tag (by simpa [StoreOp.applyMap] using hsome)

/-- Every history of calls keeps the array in step with the map. -/
theorem runStore_stores (ops : List StoreOp) :
    (runStore ops).Stores (runMap ops) := by
  have hrun : ∀ (ops : List StoreOp) (filtset : Filtset) (map : RuleMap),
      filtset.Stores map →
      (ops.foldl (fun filtset op => op.apply filtset) filtset).Stores
        (ops.foldl (fun map op => op.applyMap map) map) := by
    intro ops
    induction ops with
    | nil => exact fun _ _ h => h
    | cons op rest ih => exact fun _ _ h => ih _ _ (op.apply_stores h)
  rw [runStore]
  exact hrun ops emptyFiltset _ emptyFiltset_stores

/-- A property of single slots that new rules have and that a change of state
keeps is kept by every call. -/
theorem StoreOp.apply_forall {P : Filter → Prop}
    (hnew : ∀ targetid args, P (newFilter targetid args))
    (hstate : ∀ filt enable, P filt → P { filt with state := enable })
    {filtset : Filtset} {map : RuleMap} (hstores : filtset.Stores map)
    (h : ∀ i < filtset.numFilters, P (filtset.filtArr i)) (op : StoreOp) :
    ∀ i < (op.apply filtset).numFilters, P ((op.apply filtset).filtArr i) := by
  have hold : ∀ {tag filt}, filtset.slotOf tag = some filt → P filt := by
    intro tag filt hslot
    obtain ⟨i, hi, rfl, _⟩ :=
      (SortedSlots.lookup_eq_some_iff hstores.sorted).mp hslot
    exact h i hi
  have hupdate : ∀ {tag : Nat} {value : Option Filter},
      (∀ filt, value = some filt → P filt) → ∀ {other filt},
      Function.update filtset.slotOf tag value other = some filt →
      P filt := by
    intro tag value hvalue other filt hslot
    by_cases htag : other = tag
    · subst htag
      rw [Function.update_self] at hslot
      exact hvalue filt hslot
    · rw [Function.update_of_ne htag] at hslot
      exact hold hslot
  have hmapped : ∀ {enable : Nat} {tag : Nat} {filt : Filter},
      (filtset.slotOf tag).map (fun filt => { filt with state := enable }) =
        some filt → P filt := by
    intro enable tag filt hslot
    obtain ⟨old, hslot', rfl⟩ := Option.map_eq_some_iff.mp hslot
    exact hstate old enable (hold hslot')
  have hslots : ∀ tag filt, (op.apply filtset).slotOf tag = some filt →
      P filt := by
    intro tag filt hslot
    cases op with
    | set targetid args hstart hmax =>
        rw [StoreOp.apply,
          (aclSetfilter_moves hstores.sorted targetid args).slots] at hslot
        refine hupdate ?_ hslot
        rintro _ ⟨⟩
        exact hnew targetid args
    | delete tagid =>
        cases hfound : filtset.slotOf tagid with
        | none =>
            rw [StoreOp.apply,
              aclDeleteOneFilterByTagid_of_absent hfound] at hslot
            exact hold hslot
        | some found =>
            rw [StoreOp.apply, (aclDeleteOneFilterByTagid_of_present
              hstores.sorted hfound).2.slots] at hslot
            exact hupdate (fun _ h => by cases h) hslot
    | enableOne targetid enable =>
        rw [StoreOp.apply, (aclEnableOneFilterByTagid_moves hstores.sorted
          targetid enable).slots] at hslot
        exact hupdate (fun _ h => hmapped h) hslot
    | enableAll enable =>
        rw [StoreOp.apply,
          (aclEnableAllFilter_moves hstores.sorted enable).slots] at hslot
        exact hmapped hslot
  intro i hi
  exact hslots _ _ ((SortedSlots.lookup_eq_some_iff
    (op.apply_stores hstores).sorted).mpr ⟨i, hi, rfl, rfl⟩)

/-- The tags the map holds. -/
def presentTags (map : RuleMap) : Finset Nat :=
  (Finset.Icc aclIndexStart aclMax).filter fun tag => (map tag).isSome

theorem Filtset.Stores.numFilters_eq {filtset : Filtset} {map : RuleMap}
    (h : filtset.Stores map) :
    filtset.numFilters = (presentTags map).card := by
  rw [← SortedSlots.card_keys h.sorted]
  congr 1
  ext tag
  have hsome : (map tag).isSome ↔ tag ∈ SortedSlots.keys Filter.cost
      filtset.filtArr filtset.numFilters := by
    rw [← SortedSlots.lookup_isSome_iff]
    have hslot := h.slots tag
    rw [Filtset.slotOf] at hslot
    rw [hslot, Option.isSome_map]
  rw [presentTags, Finset.mem_filter, Finset.mem_Icc, ← hsome]
  exact ⟨fun hmap => ⟨h.tags tag hmap, hmap⟩, fun hmem => hmem.2⟩

theorem Filtset.Stores.numFilters_le {filtset : Filtset} {map : RuleMap}
    (h : filtset.Stores map) : filtset.numFilters ≤ aclMax := by
  rw [h.numFilters_eq]
  calc
    (presentTags map).card ≤ (Finset.Icc aclIndexStart aclMax).card :=
      Finset.card_filter_le _ _
    _ = aclMax := by simp [aclIndexStart]

section ReadBack

/-- The ranges of an address: the address itself, or everything for 0. -/
theorem aclReadiprange_eq {ip : Nat} (hip : ip < 2 ^ 32) :
    aclReadiprange ip =
      if ip = 0 then ((0, 65535), (0, 65535))
      else ((ip / 65536, ip / 65536), (ip % 65536, ip % 65536)) := by
  by_cases hzero : ip = 0
  · subst hzero
    decide
  · rw [if_neg hzero]
    have hand : ∀ n : Nat, n &&& 0xff = n % 256 := fun n =>
      Nat.and_two_pow_sub_one_eq_mod n 8
    simp only [aclReadiprange, hzero, ne_eq, not_false_eq_true, if_true,
      joinBytes, hand, Nat.shiftRight_eq_div_pow, Nat.shiftLeft_eq]
    simp
    omega

theorem aclReadiprange_zero :
    aclReadiprange 0 = ((0, 65535), (0, 65535)) := by decide

theorem joinHalves {high low : Nat} (hhigh : high < 65536)
    (hlow : low < 65536) :
    ((high <<< 16) &&& 0xFFFF0000) ||| (low &&& 0x0000FFFF) =
      high * 65536 + low := by
  have hand : ∀ n < 65536, n &&& 0xFFFF = n := fun n hn => by
    rw [show (0xFFFF : Nat) = 2 ^ 16 - 1 from rfl,
      Nat.and_two_pow_sub_one_eq_mod, Nat.mod_eq_of_lt hn]
  rw [show (0xFFFF0000 : Nat) = 0xFFFF <<< 16 from rfl,
    ← Nat.shiftLeft_and_distrib, hand high hhigh, hand low hlow,
    ← Nat.shiftLeft_add_eq_or_of_lt hlow, Nat.shiftLeft_eq]

/-- The lower ends of the stored ranges give the arguments back. -/
theorem getfileter_filter (entry : RuleEntry) (tag : Nat) :
    getfileter (entry.filter tag) = (entry.args.sip, entry.args.dip,
      entry.args.sp, entry.args.dp, entry.args.protocol) := by
  have hip : ∀ ip < 2 ^ 32, (((aclReadiprange ip).1.1 <<< 16) &&& 0xFFFF0000)
      ||| ((aclReadiprange ip).2.1 &&& 0x0000FFFF) = ip := by
    intro ip hlt
    rw [aclReadiprange_eq hlt]
    by_cases hzero : ip = 0
    · subst hzero
      rfl
    · rw [if_neg hzero]
      dsimp only
      rw [joinHalves (by omega) (by omega)]
      omega
  have hand : ∀ n < 2 ^ 16, n &&& 0x0000FFFF = n := fun n hn => by
    rw [show (0x0000FFFF : Nat) = 2 ^ 16 - 1 from rfl,
      Nat.and_two_pow_sub_one_eq_mod, Nat.mod_eq_of_lt hn]
  have hport : ∀ port < 2 ^ 16,
      (aclReadPort port).1 &&& 0x0000FFFF = port := by
    intro port hlt
    unfold aclReadPort
    split
    · exact hand port hlt
    · rename_i hzero
      rw [not_not.mp hzero]
      rfl
  have hproto : (aclReadProtocol entry.args.protocol).1 &&& 0x0000FFFF =
      entry.args.protocol := by
    unfold aclReadProtocol
    split
    · rename_i hany
      rw [hany]
      rfl
    · exact hand _ entry.args.protocol_lt
  have hsip := hip _ entry.args.sip_lt
  have hdip := hip _ entry.args.dip_lt
  have hsp := hport _ entry.args.sp_lt
  have hdp := hport _ entry.args.dp_lt
  simp only [getfileter, RuleEntry.filter, RuleArgs.dim, Prod.mk.injEq]
  exact ⟨hsip, hdip, hsp, hdp, hproto⟩

/-- The source and destination address of a tuple. -/
def AclTuple.sip (tuple : AclTuple) : Nat := tuple.siph * 65536 + tuple.sipl

def AclTuple.dip (tuple : AclTuple) : Nat := tuple.diph * 65536 + tuple.dipl

/-- Each of the five fields is 0 or the packet's own. -/
def RuleArgs.Matches (args : RuleArgs) (tuple : AclTuple) : Prop :=
  (args.sip = 0 ∨ args.sip = tuple.sip) ∧
    (args.dip = 0 ∨ args.dip = tuple.dip) ∧
    (args.sp = 0 ∨ args.sp = tuple.sp) ∧
    (args.dp = 0 ∨ args.dp = tuple.dp) ∧
    (args.protocol = 0 ∨ args.protocol = tuple.proto)

theorem aclReadiprange_contains {ip high low : Nat} (hip : ip < 2 ^ 32)
    (hhigh : high < 65536) (hlow : low < 65536) :
    (((aclReadiprange ip).1.1 ≤ high ∧ high ≤ (aclReadiprange ip).1.2) ∧
      (aclReadiprange ip).2.1 ≤ low ∧ low ≤ (aclReadiprange ip).2.2) ↔
      ip = 0 ∨ ip = high * 65536 + low := by
  rw [aclReadiprange_eq hip]
  by_cases hzero : ip = 0
  · simp only [hzero, if_true, true_or, iff_true]
    omega
  · simp only [hzero, if_false, false_or]
    omega

theorem aclReadPort_contains {port n : Nat} (hn : n < 65536) :
    ((aclReadPort port).1 ≤ n ∧ n ≤ (aclReadPort port).2) ↔
      port = 0 ∨ port = n := by
  unfold aclReadPort
  split
  · simp only
    omega
  · simp only
    omega

theorem aclReadProtocol_contains {proto n : Nat} (hn : n < 256) :
    ((aclReadProtocol proto).1 ≤ n ∧ n ≤ (aclReadProtocol proto).2) ↔
      proto = 0 ∨ proto = n := by
  unfold aclReadProtocol aclProtocolAny
  split
  · simp only
    omega
  · simp only
    omega

/-- The stored ranges contain exactly the packets the rule is meant for. -/
theorem RuleArgs.dim_contains (args : RuleArgs) (tuple : AclTuple) :
    (∀ com, (args.dim com).1 ≤ tuple.field com ∧
      tuple.field com ≤ (args.dim com).2) ↔ args.Matches tuple := by
  rw [RuleArgs.Matches, AclTuple.sip, AclTuple.dip,
    ← aclReadiprange_contains args.sip_lt tuple.siph_lt tuple.sipl_lt,
    ← aclReadiprange_contains args.dip_lt tuple.diph_lt tuple.dipl_lt,
    ← aclReadPort_contains tuple.sp_lt, ← aclReadPort_contains tuple.dp_lt,
    ← aclReadProtocol_contains tuple.proto_lt]
  simp only [Fin.forall_fin_succ, IsEmpty.forall_iff, and_true]
  constructor
  · rintro ⟨h0, h1, h2, h3, h4, h5, h6⟩
    exact ⟨⟨h0, h1⟩, ⟨h2, h3⟩, h4, h5, h6⟩
  · rintro ⟨⟨h0, h1⟩, ⟨h2, h3⟩, h4, h5, h6⟩
    exact ⟨h0, h1, h2, h3, h4, h5, h6⟩

end ReadBack

/-- What the users of the store may rely on, for an array that stands for
`map`. -/
structure Filtset.Refines (filtset : Filtset) (map : RuleMap) : Prop where
  sorted : filtset.Sorted
  cleared : ∀ i, filtset.numFilters ≤ i → i < mppMaxFilters →
    filtset.filtArr i = clearedFilter
  present : ∀ tag, tag ∈ presentTags map ↔ (map tag).isSome
  numFilters_eq : filtset.numFilters = (presentTags map).card
  slots : ∀ tag, filtset.slotOf tag =
    (map tag).map fun entry => entry.filter tag
  set_only : ∀ targetid args,
    (aclSetfilter filtset targetid args).slotOf =
      Function.update filtset.slotOf targetid
        (some (RuleEntry.filter ⟨args, aclEnable, aclNosync⟩ targetid))
  delete_only : ∀ tagid,
    (aclDeleteOneFilterByTagid filtset tagid).2.slotOf =
      Function.update filtset.slotOf tagid none
  delete_notfound : ∀ tagid,
    (aclDeleteOneFilterByTagid filtset tagid).1 = .notfound ↔
      map tagid = none
  delete_absent : ∀ tagid, map tagid = none →
    (aclDeleteOneFilterByTagid filtset tagid).2 = filtset
  reads_back : ∀ tag entry, map tag = some entry → ∃ info,
    aclGetfilterByTagid filtset tag = some info ∧
      info.sip = entry.args.sip ∧ info.dip = entry.args.dip ∧
      info.sp = entry.args.sp ∧ info.dp = entry.args.dp ∧
      info.protocol = entry.args.protocol ∧ info.op = entry.args.op ∧
      info.action = entry.args.action ∧
      info.ruleType = entry.args.ruleType ∧
      info.ruleSource = entry.args.ruleSource
  ranges : ∀ tag entry, map tag = some entry → ∃ filt,
    filtset.slotOf tag = some filt ∧ ∀ tuple : AclTuple,
      (∀ com, (filt.dim com).1 ≤ tuple.field com ∧
        tuple.field com ≤ (filt.dim com).2) ↔ entry.args.Matches tuple

theorem Filtset.Stores.reads_back {filtset : Filtset} {map : RuleMap}
    (h : filtset.Stores map) {tag : Nat} {entry : RuleEntry}
    (hentry : map tag = some entry) :
    ∃ info, aclGetfilterByTagid filtset tag = some info ∧
      info.sip = entry.args.sip ∧ info.dip = entry.args.dip ∧
      info.sp = entry.args.sp ∧ info.dp = entry.args.dp ∧
      info.protocol = entry.args.protocol ∧ info.op = entry.args.op ∧
      info.action = entry.args.action ∧
      info.ruleType = entry.args.ruleType ∧
      info.ruleSource = entry.args.ruleSource := by
  have hslot : filtset.slotOf tag = some (entry.filter tag) := by
    rw [h.slots, hentry, Option.map_some]
  obtain ⟨i, _, hfind, hfilt, _⟩ := find?_of_present hslot
  refine ⟨_, by rw [aclGetfilterByTagid, hfind, Option.map_some], ?_⟩
  simp only [hfilt, getfileter_filter, true_and]
  exact ⟨rfl, rfl, rfl, rfl⟩

/-- The rule store is a finite map from tags to rules: every history of calls
from the empty store leaves an array that refines the map the same history
gives. -/
theorem runStore_refines (ops : List StoreOp) :
    (runStore ops).Refines (runMap ops) := by
  have h := runStore_stores ops
  have habsent : ∀ tag, (runStore ops).slotOf tag = none ↔
      runMap ops tag = none := by
    intro tag
    rw [h.slots, Option.map_eq_none_iff]
  refine ⟨h.sorted, h.cleared, ?_, h.numFilters_eq, h.slots,
    fun targetid args => (aclSetfilter_moves h.sorted targetid args).slots,
    ?_, ?_, ?_, fun tag entry => h.reads_back, ?_⟩
  · intro tag
    rw [presentTags, Finset.mem_filter, Finset.mem_Icc]
    exact ⟨fun hmem => hmem.2, fun hmap => ⟨h.tags tag hmap, hmap⟩⟩
  · intro tagid
    cases hslot : (runStore ops).slotOf tagid with
    | none =>
        rw [aclDeleteOneFilterByTagid_of_absent hslot, ← hslot,
          Function.update_eq_self]
    | some filt =>
        exact (aclDeleteOneFilterByTagid_of_present h.sorted hslot).2.slots
  · intro tagid
    rw [← habsent]
    cases hslot : (runStore ops).slotOf tagid with
    | none => simp [aclDeleteOneFilterByTagid_of_absent hslot]
    | some filt =>
        simp [(aclDeleteOneFilterByTagid_of_present h.sorted hslot).1]
  · intro tagid hnone
    rw [aclDeleteOneFilterByTagid_of_absent ((habsent tagid).mpr hnone)]
  · intro tag entry hentry
    refine ⟨entry.filter tag, by rw [h.slots, hentry, Option.map_some], ?_⟩
    exact entry.args.dim_contains

/-- Rules with the tags 1 to `n`, set one after the other. -/
def installed {n : Nat} (hn : n ≤ aclMax) (args : Fin n → RuleArgs) :
    List StoreOp :=
  (List.finRange n).map fun t : Fin n =>
    .set (t.val + 1) (args t) (Nat.le_add_left 1 t) (Nat.le_trans t.isLt hn)

theorem runMap_installed {n : Nat} (hn : n ≤ aclMax) (args : Fin n → RuleArgs)
    (tag : Nat) :
    runMap (installed hn args) tag =
      if h : 1 ≤ tag ∧ tag ≤ n then
        some ⟨args ⟨tag - 1, by omega⟩, aclEnable, aclNosync⟩
      else none := by
  have hfold : ∀ (ts : List (Fin n)) (map : RuleMap),
      ts.foldl (fun (map : RuleMap) t => Function.update map (t.val + 1)
        (some ⟨args t, aclEnable, aclNosync⟩)) map tag =
      if h : 1 ≤ tag ∧ tag ≤ n then
        if (⟨tag - 1, by omega⟩ : Fin n) ∈ ts then
          some ⟨args ⟨tag - 1, by omega⟩, aclEnable, aclNosync⟩
        else map tag
      else map tag := by
    intro ts
    induction ts with
    | nil => simp
    | cons t rest ih =>
        intro map
        rw [List.foldl_cons, ih]
        by_cases htag : 1 ≤ tag ∧ tag ≤ n
        · simp only [htag, and_self, dif_pos, List.mem_cons]
          by_cases heq : tag = t.val + 1
          · subst heq
            simp
          · have hne : (⟨tag - 1, by omega⟩ : Fin n) ≠ t := by
              intro h
              have := congrArg Fin.val h
              simp only at this
              omega
            simp [heq, hne]
        · have hne : tag ≠ t.val + 1 := by
            have := t.isLt
            omega
          simp [htag, hne]
  rw [runMap, installed, List.foldl_map]
  exact (hfold (List.finRange n) fun _ => none).trans (by simp)

theorem runStore_installed_numFilters {n : Nat} (hn : n ≤ aclMax)
    (args : Fin n → RuleArgs) :
    (runStore (installed hn args)).numFilters = n := by
  have htags : presentTags (runMap (installed hn args)) = Finset.Icc 1 n := by
    ext tag
    simp only [presentTags, Finset.mem_filter, Finset.mem_Icc,
      runMap_installed, aclIndexStart]
    constructor
    · rintro ⟨_, hsome⟩
      by_contra hout
      simp [hout] at hsome
    · intro htag
      refine ⟨⟨htag.1, Nat.le_trans htag.2 hn⟩, ?_⟩
      simp [htag]
  rw [(runStore_stores _).numFilters_eq, htags, Nat.card_Icc,
    Nat.add_sub_cancel]

/-- Every installed rule has a slot of its own. -/
theorem runStore_installed_slot {n : Nat} (hn : n ≤ aclMax)
    (args : Fin n → RuleArgs) (t : Fin n) :
    ∃ i < n, ((runStore (installed hn args)).filtArr i).state = aclEnable ∧
      ((runStore (installed hn args)).filtArr i).sync = aclNosync ∧
      ((runStore (installed hn args)).filtArr i).dim = (args t).dim := by
  have hstores := runStore_stores (installed hn args)
  have hslot := hstores.slots (t + 1)
  have hentry : runMap (installed hn args) (t + 1) =
      some ⟨args t, aclEnable, aclNosync⟩ := by
    rw [runMap_installed]
    simp
  rw [hentry, Option.map_some] at hslot
  obtain ⟨i, hi, hfilt, _⟩ :=
    (SortedSlots.lookup_eq_some_iff hstores.sorted).mp hslot
  rw [runStore_installed_numFilters] at hi
  refine ⟨i, hi, ?_⟩
  rw [hfilt]
  exact ⟨rfl, rfl, rfl⟩

/-- Every used slot holds an installed rule. -/
theorem runStore_installed_filtArr {n : Nat} (hn : n ≤ aclMax)
    (args : Fin n → RuleArgs) {i : Nat} (hi : i < n) :
    ∃ t, (runStore (installed hn args)).filtArr i =
      RuleEntry.filter ⟨args t, aclEnable, aclNosync⟩ (t + 1) := by
  have hstores := runStore_stores (installed hn args)
  have hslot : (runStore (installed hn args)).slotOf
      ((runStore (installed hn args)).filtArr i).cost =
      some ((runStore (installed hn args)).filtArr i) := by
    refine (SortedSlots.lookup_eq_some_iff hstores.sorted).mpr
      ⟨i, ?_, rfl, rfl⟩
    rwa [runStore_installed_numFilters]
  rw [hstores.slots, runMap_installed] at hslot
  split at hslot
  · rename_i htag
    rw [Option.map_some, Option.some.injEq] at hslot
    refine ⟨⟨((runStore (installed hn args)).filtArr i).cost - 1, by omega⟩,
      hslot.symm.trans ?_⟩
    congr 1
    exact (Nat.sub_add_cancel htag.1).symm
  · simp at hslot

end Barley
