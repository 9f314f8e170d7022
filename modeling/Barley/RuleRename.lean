/-
Giving a rule another tag.  Two rules trade places through three helpers that
each copy a part of a slot; a rule whose new tag is free is taken out and put
in again with the shifting loops.
-/
import Barley.RuleCounters

namespace Barley

/-- `acl_getfilter_state`. -/
def aclGetfilterState (filtset : Filtset) (targetid : Nat) : Nat :=
  match (List.range filtset.numFilters).find? fun i =>
      targetid = (filtset.filtArr i).cost with
  | some i => (filtset.filtArr i).state
  | none => aclUnset

/-- `swap_filt_statistics`: the packet counters only. -/
def swapFiltStatistics (filtset : Filtset) (stagId dtagId : Nat) : Filtset :=
  let tmp := filtset.pktNum stagId
  let pktNum := Function.update filtset.pktNum stagId (filtset.pktNum dtagId)
  { filtset with pktNum := Function.update pktNum dtagId tmp }

/-- The assignments the three helpers share: the flags, the tag and the ranges
of `filt`, and the remaining fields of the slot. -/
def Filter.take (slot filt : Filter) : Filter :=
  { slot with
    state := filt.state
    sync := filt.sync
    cost := filt.cost
    dim := fun m => ((filt.dim m).1, (filt.dim m).2) }

/-- `copy_one_filter`, into a filter that was set to zero. -/
def copyOneFilter (filtset : Filtset) (index : Nat) : Filter :=
  clearedFilter.take (filtset.filtArr index)

/-- `restore_one_filter`. -/
def restoreOneFilter (filtset : Filtset) (index : Nat) (filt : Filter) :
    Filtset :=
  { filtset with
    filtArr := Function.update filtset.filtArr index
      ((filtset.filtArr index).take filt) }

/-- `cover_one_filter`. -/
def coverOneFilter (filtset : Filtset) (sindex dindex : Nat) : Filtset :=
  { filtset with
    filtArr := Function.update filtset.filtArr sindex
      ((filtset.filtArr sindex).take (filtset.filtArr dindex)) }

/-- An assignment to the tag of one slot. -/
def Filtset.setCost (filtset : Filtset) (index tag : Nat) : Filtset :=
  { filtset with
    filtArr := Function.update filtset.filtArr index
      { filtset.filtArr index with cost := tag } }

/-- `updatefiltertagid_by_stagid`; `none` when it returns 0. -/
def updatefiltertagidByStagid (filtset : Filtset) (stagid dtagid : Nat) :
    Option Filtset :=
  if aclUnset ≠ aclGetfilterState filtset stagid ∧
      aclUnset ≠ aclGetfilterState filtset dtagid then
    let (filt, sindex, dindex) :=
      (List.range filtset.numFilters).foldl (fun (filt, sindex, dindex) i =>
        let (filt, sindex) :=
          if stagid = (filtset.filtArr i).cost then
            (copyOneFilter filtset i, i)
          else (filt, sindex)
        let dindex := if dtagid = (filtset.filtArr i).cost then i else dindex
        (filt, sindex, dindex)) (clearedFilter, 0, 0)
    let filtset := coverOneFilter filtset sindex dindex
    let filtset := restoreOneFilter filtset dindex filt
    let filtset := filtset.setCost sindex stagid
    let filtset := filtset.setCost dindex dtagid
    some (swapFiltStatistics filtset stagid dtagid)
  else none

/-- The first loop of `acl_updatefiltertagid_by_stagid`: the filter is copied
under its new tag and taken out of the array. -/
def takeOutFilter (filtset : Filtset) (stagid dtagid : Nat) :
    Filter × Filtset :=
  let count := filtset.numFilters
  match (List.range count).find? fun i =>
      stagid = (filtset.filtArr i).cost with
  | some i =>
      let filt := { copyOneFilter filtset i with cost := dtagid }
      let moved :=
        if i = count - 1 then aclInitOneFilterByIndex filtset i
        else moveForwardFilterFromIndex filtset i
      (filt, { moved with numFilters := moved.numFilters - 1 })
  | none => (clearedFilter, filtset)

/-- The second loop: a place for the filter is searched and the filter
restored there.  `move_Back_Filter_from_index` runs the loop of `acl_setfilter`,
but from the first slot on, whatever the place is. -/
def putInFilter (filtset : Filtset) (dtagid : Nat) (filt : Filter) :
    Filtset :=
  let count := filtset.numFilters
  let filtset := match (List.range count).find? fun i =>
      dtagid < (filtset.filtArr i).cost with
    | some i => restoreOneFilter (shiftBack filtset 0) i filt
    | none => restoreOneFilter filtset count filt
  { filtset with numFilters := filtset.numFilters + 1 }

/-- `acl_updatefiltertagid_by_stagid`. -/
def aclUpdatefiltertagidByStagid (filtset : Filtset) (stagid dtagid : Nat) :
    Filtset :=
  match updatefiltertagidByStagid filtset stagid dtagid with
  | some filtset => filtset
  | none =>
      let (filt, filtset) := takeOutFilter filtset stagid dtagid
      putInFilter filtset dtagid filt

/-- A rule with the counters kept for its tag. -/
structure TagRule where
  dim : Fin 7 → Nat × Nat
  state : Nat
  op : Nat
  action : Nat
  ruleType : Nat
  ruleSource : Nat
  pktNum : Int
  pktBytes : Int

/-- The rule a slot holds for a tag. -/
def Filtset.ruleIn (filtset : Filtset) (filt : Filter) (tag : Nat) : TagRule :=
  { dim := filt.dim
    state := filt.state
    op := filt.op
    action := filt.action
    ruleType := filt.ruleType
    ruleSource := filt.ruleSource
    pktNum := filtset.pktNum tag
    pktBytes := filtset.pktBytes tag }

/-- The rule installed under a tag. -/
def Filtset.ruleOf (filtset : Filtset) (tag : Nat) : Option TagRule :=
  (filtset.slotOf tag).map fun filt => filtset.ruleIn filt tag

/-- `next` is the table with the rule of `s` renamed to `d`. -/
structure Filtset.Renamed (filtset next : Filtset) (s d : Nat) : Prop where
  sorted : next.Sorted
  count : next.numFilters =
    (SortedSlots.keys Filter.cost next.filtArr next.numFilters).card
  swapped : filtset.HasTag s → filtset.HasTag d →
    next.ruleOf s = filtset.ruleOf d ∧ next.ruleOf d = filtset.ruleOf s
  moved : filtset.HasTag s → ¬ filtset.HasTag d →
    next.ruleOf d = filtset.ruleOf s ∧ next.ruleOf s = none
  unchanged : ¬ filtset.HasTag s → next = filtset
  others : ∀ u, u ≠ s → u ≠ d → next.ruleOf u = filtset.ruleOf u

/-- The fields that the helpers leave behind. -/
def Filter.SameFields (filt other : Filter) : Prop :=
  filt.op = other.op ∧ filt.action = other.action ∧
    filt.ruleType = other.ruleType ∧ filt.ruleSource = other.ruleSource

theorem Filter.SameFields.symm {filt other : Filter}
    (h : filt.SameFields other) : other.SameFields filt :=
  ⟨h.1.symm, h.2.1.symm, h.2.2.1.symm, h.2.2.2.symm⟩

/-- The slots that remain when slot `i` is taken out. -/
def Filtset.rest (filtset : Filtset) (i : Nat) : Nat → Filter :=
  SortedSlots.removeSlot filtset.filtArr i

/-- The rule of slot `i` may be put behind the remaining ones: the slot there
is empty, and the tags behind `i` have counted nothing. -/
structure Filtset.Appends (filtset : Filtset) (i d : Nat) : Prop where
  above : ∀ k < filtset.numFilters - 1, (filtset.rest i k).cost < d
  fields : (filtset.filtArr i).SameFields clearedFilter
  idle : ∀ k, i < k → k < filtset.numFilters →
    filtset.counters (filtset.filtArr k).cost = (0, 0)

/-- The rule of slot `i` may be put at one of the first two places: it has the
fields of the rule that comes first, and the counters both shifts move are
equal where one shift does not undo the other. -/
structure Filtset.Inserts (filtset : Filtset) (i d : Nat) : Prop where
  below : ∃ k ≤ 1, k < filtset.numFilters - 1 ∧ d < (filtset.rest i k).cost
  fields : (filtset.filtArr i).SameFields (filtset.rest i 0)
  before : ∀ k < i, k + 1 < filtset.numFilters - 1 →
    filtset.counters (filtset.rest i (k + 1)).cost =
      filtset.counters (filtset.rest i k).cost
  first : i = 0 → filtset.counters (filtset.rest i 0).cost =
    if 1 < filtset.numFilters - 1 then
      filtset.counters (filtset.rest i 1).cost
    else (0, 0)

/-- The two rules may trade places: they agree in the fields that stay and in
the counter that is not swapped. -/
def Filtset.Trades (filtset : Filtset) (i s d : Nat) : Prop :=
  ∃ j < filtset.numFilters, (filtset.filtArr j).cost = d ∧
    (filtset.filtArr i).state ≠ aclUnset ∧
    (filtset.filtArr j).state ≠ aclUnset ∧
    (filtset.filtArr i).SameFields (filtset.filtArr j) ∧
    filtset.pktBytes s = filtset.pktBytes d

/-- The rule of slot `i` may be taken out and put in again: the new tag is
free, its counters are those of the rule, and there is a place for it. -/
def Filtset.Moveable (filtset : Filtset) (i s d : Nat) : Prop :=
  (d = s ∧ (filtset.filtArr i).state = aclUnset ∨ ¬ filtset.HasTag d) ∧
    filtset.counters s =
      (if d ≠ s then filtset.counters d
      else if i < filtset.numFilters - 1 then
        filtset.counters (filtset.rest i i).cost
      else (0, 0)) ∧
    (filtset.Appends i d ∨ filtset.Inserts i d)

/-- The rule of `s` can be renamed to `d`. -/
def Filtset.Renamable (filtset : Filtset) (s d : Nat) : Prop :=
  ∃ i < filtset.numFilters, (filtset.filtArr i).cost = s ∧
    (filtset.Trades i s d ∨ filtset.Moveable i s d)

/-- The table with the filter of slot `i` taken out. -/
def Filtset.without (filtset : Filtset) (i : Nat) : Filtset :=
  { moveForwardFilterFromIndex filtset i with
    numFilters := filtset.numFilters - 1 }

end Barley
