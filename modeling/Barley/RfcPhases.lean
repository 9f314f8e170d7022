/-
What each filling loop of the classifier computes.  A class list is read as
the list of rule sets its bitmaps stand for; a phase 0 table maps a value to
the rules that cover it, a cross-product table maps two classes to the rules
they share.
-/
import Barley.Interning
import Barley.RfcTables
import Mathlib.Data.Finset.NAry

namespace Barley

/-- The filter is enabled and its range of component `com` contains `n`. -/
def Filter.Covers (filt : Filter) (com : Fin 7) (n : Nat) : Prop :=
  filt.state = aclEnable ∧ (filt.dim com).1 ≤ n ∧ n ≤ (filt.dim com).2

instance (filt : Filter) (com : Fin 7) (n : Nat) :
    Decidable (filt.Covers com n) :=
  inferInstanceAs (Decidable (_ ∧ _ ∧ _))

/-- The rules that cover value `n` of component `com`. -/
def coveredRules (filtset : Filtset) (com : Fin 7) (n : Nat) : Finset Nat :=
  (Finset.range filtset.numFilters).filter fun i =>
    (filtset.filtArr i).Covers com n

/-- The ranges of every used filter are ordered 16 bit ranges. -/
def Filtset.RangesOk (filtset : Filtset) : Prop :=
  ∀ i < filtset.numFilters, ∀ com,
    ((filtset.filtArr i).dim com).1 ≤ ((filtset.filtArr i).dim com).2 ∧
      ((filtset.filtArr i).dim com).2 ≤ 65535

theorem mem_coveredRules {filtset : Filtset} {com : Fin 7} {n i : Nat} :
    i ∈ coveredRules filtset com n ↔
      i < filtset.numFilters ∧ (filtset.filtArr i).Covers com n := by
  simp [coveredRules]

/-- The bit one filter contributes at value `n`, given the bit before. -/
def sweptBit (filt : Filter) (com : Fin 7) (n : Nat) (bit : Bool) : Bool :=
  if filt.state ≠ aclEnable then bit
  else if ((filt.dim com).2 + 1) % 2 ^ 32 = n then false
  else if (filt.dim com).1 = n then true
  else bit

theorem testBmp_updateBmpBit (filtset : Filtset) (com : Fin 7) (n : Nat)
    (bmp : Bmp) {i j : Nat} (hi : i < mppMaxFilters)
    (hj : j < mppMaxFilters) :
    testBmp (updateBmpBit filtset com n bmp i) j =
      if i = j then sweptBit (filtset.filtArr i) com n (testBmp bmp j)
      else testBmp bmp j := by
  unfold updateBmpBit sweptBit
  by_cases hstate : (filtset.filtArr i).state ≠ aclEnable
  · rw [if_pos hstate, if_pos hstate, ite_self]
  · rw [if_neg hstate, if_neg hstate]
    dsimp only
    by_cases hend : (((filtset.filtArr i).dim com).2 + 1) % 2 ^ 32 = n
    · rw [if_pos hend, if_pos hend, testBmp_setBmpBit _ _ hi hj]
      split
      · rfl
      · split
        · rw [testBmp_setBmpBit _ _ hi hj, if_neg ‹_›]
        · rfl
    · rw [if_neg hend, if_neg hend]
      split
      · exact testBmp_setBmpBit _ _ hi hj
      · rw [ite_self]

/-- The inner loop changes each rule's bit on its own. -/
theorem testBmp_updateBmp {filtset : Filtset}
    (hnum : filtset.numFilters ≤ mppMaxFilters) (com : Fin 7) (n : Nat)
    (bmp : Bmp) {i : Nat} (hi : i < mppMaxFilters) :
    testBmp (updateBmp filtset com n bmp) i =
      if i < filtset.numFilters then
        sweptBit (filtset.filtArr i) com n (testBmp bmp i)
      else testBmp bmp i := by
  unfold updateBmp
  generalize filtset.numFilters = num at hnum
  induction num with
  | zero => simp
  | succ num ih =>
      have hlast : num < mppMaxFilters := hnum
      have hprev := ih (Nat.le_of_lt hlast)
      rw [List.range_succ, List.foldl_append, List.foldl_cons, List.foldl_nil,
        testBmp_updateBmpBit filtset com n _ hlast hi, hprev]
      by_cases heq : num = i
      · subst heq
        simp
      · have hlt : i < num + 1 ↔ i < num := by omega
        simp only [heq, if_false, hlt]

/-- The rules recorded before value `n` is visited. -/
def sweptRules (filtset : Filtset) (com : Fin 7) : Nat → Finset Nat
  | 0 => ∅
  | n + 1 => coveredRules filtset com n

/-- Visiting `n` turns the record of the value before into the record of
`n`. -/
theorem bmpRules_updateBmp {filtset : Filtset}
    (hnum : filtset.numFilters ≤ mppMaxFilters) (hranges : filtset.RangesOk)
    (com : Fin 7) {n : Nat} {bmp : Bmp}
    (hbmp : bmpRules bmp = sweptRules filtset com n) :
    bmpRules (updateBmp filtset com n bmp) = coveredRules filtset com n := by
  ext i
  rw [mem_bmpRules, mem_coveredRules]
  by_cases hi : i < mppMaxFilters
  · rw [testBmp_updateBmp hnum com n bmp hi]
    by_cases hused : i < filtset.numFilters
    · have hold : testBmp bmp i = true ↔ i ∈ sweptRules filtset com n := by
        rw [← hbmp, mem_bmpRules]
        exact (and_iff_right hi).symm
      obtain ⟨hle, hhi⟩ := hranges i hused com
      have hwrap : (((filtset.filtArr i).dim com).2 + 1) % 2 ^ 32 =
          ((filtset.filtArr i).dim com).2 + 1 :=
        Nat.mod_eq_of_lt (by omega)
      simp only [hi, hused, true_and, if_true, sweptBit, hwrap,
        Filter.Covers]
      cases n with
      | zero =>
          simp only [sweptRules, Finset.notMem_empty, iff_false,
            Bool.not_eq_true] at hold
          split
          · simp [*]
          · split
            · omega
            · split
              · simp_all
              · simp only [hold, Bool.false_eq_true, false_iff]
                omega
      | succ n =>
          simp only [sweptRules, mem_coveredRules, hused, true_and,
            Filter.Covers] at hold
          split
          · rename_i hstate
            simp [hold, hstate]
          · rename_i hstate
            rw [ne_eq, not_not] at hstate
            split
            · simp only [Bool.false_eq_true, false_iff]
              omega
            · split
              · simp only [hstate, true_and, true_iff]
                omega
              · simp only [hold, hstate, true_and]
                omega
    · have hnot : i ∉ sweptRules filtset com n := by
        cases n with
        | zero => simp [sweptRules]
        | succ n =>
            simp only [sweptRules, mem_coveredRules, not_and]
            exact fun h => absurd h hused
      rw [← hbmp, mem_bmpRules] at hnot
      simp only [hused, if_false, false_and, iff_false]
      exact hnot
  · have hused : ¬ i < filtset.numFilters := fun h =>
      hi (Nat.lt_of_lt_of_le h hnum)
    simp [hi, hused]

/-- The sweep lists, value by value, the rules that cover it. -/
theorem map_bmpRules_scanBmps {filtset : Filtset}
    (hnum : filtset.numFilters ≤ mppMaxFilters) (hranges : filtset.RangesOk)
    (com : Fin 7) (count : Nat) {n : Nat} {bmp : Bmp}
    (hbmp : bmpRules bmp = sweptRules filtset com n) :
    (scanBmps filtset com count n bmp).map bmpRules =
      (List.range' n count).map (coveredRules filtset com) := by
  induction count generalizing n bmp with
  | zero => rfl
  | succ count ih =>
      have hnext := bmpRules_updateBmp hnum hranges com hbmp
      rw [scanBmps, List.map_cons, List.range'_succ, List.map_cons, hnext,
        ih hnext]

/-- The rule sets of a class list, in the order of their numbers. -/
def ListEqS.rules (listEqs : ListEqS) : List (Finset Nat) :=
  listEqs.ces.map fun tCES => bmpRules tCES.cbm

/-- Class `eqID` stands for exactly these rules. -/
def ListEqS.ClassOf (listEqs : ListEqS) (eqID : Nat) (rules : Finset Nat) :
    Prop :=
  listEqs.rules[eqID]? = some rules

/-- The list holds every one of these rule sets once and nothing else. -/
def ListEqS.Lists (listEqs : ListEqS) (classes : Finset (Finset Nat)) : Prop :=
  listEqs.rules.Nodup ∧ listEqs.rules.toFinset = classes

theorem ListEqS.ClassOf.lt {listEqs : ListEqS} {eqID : Nat}
    {rules : Finset Nat} (h : listEqs.ClassOf eqID rules) :
    eqID < listEqs.nCES := by
  obtain ⟨hlt, _⟩ := List.getElem?_eq_some_iff.mp h
  simpa [ListEqS.rules, ListEqS.nCES] using hlt

theorem ListEqS.Lists.nCES_eq {listEqs : ListEqS}
    {classes : Finset (Finset Nat)} (h : listEqs.Lists classes) :
    listEqs.nCES = classes.card := by
  rw [← h.2, List.toFinset_card_of_nodup h.1, ListEqS.rules, ListEqS.nCES,
    List.length_map]

theorem searchBmp_eq_idxOf? (listEqs : ListEqS) (tbmp : Bmp) :
    searchBmp listEqs tbmp = listEqs.rules.idxOf? (bmpRules tbmp) := by
  have hsame : (fun tCES : CES => compareBmp tCES.cbm tbmp) =
      fun tCES => bmpRules tCES.cbm == bmpRules tbmp := by
    funext tCES
    apply Bool.eq_iff_iff.mpr
    rw [compareBmp_iff, beq_iff_eq, bmpRules_injective.eq_iff]
  simp only [searchBmp, hsame, ListEqS.rules, List.idxOf?, List.findIdx?_map,
    Function.comp_def]

/-- The search-and-add step is interning at rule sets. -/
theorem findOrAddCES_rules (listEqs : ListEqS) (tbmp : Bmp) :
    (findOrAddCES listEqs tbmp).map (fun step => (step.1.rules, step.2)) =
      intern mppMaxFilters listEqs.rules (bmpRules tbmp) := by
  have hlength : listEqs.rules.length = listEqs.nCES := by
    simp [ListEqS.rules, ListEqS.nCES]
  simp only [findOrAddCES, intern, searchBmp_eq_idxOf?]
  cases listEqs.rules.idxOf? (bmpRules tbmp) with
  | some tempeqID => rfl
  | none =>
      simp only [addListEqsCES, hlength]
      split
      · simp [ListEqS.rules]
      · rfl

theorem fillCells_rules (listEqs : ListEqS) (tbmps : List Bmp) :
    (fillCells listEqs tbmps).map (fun done => (done.1.rules, done.2)) =
      internAll mppMaxFilters listEqs.rules (tbmps.map bmpRules) := by
  induction tbmps generalizing listEqs with
  | nil => rfl
  | cons tbmp rest ih =>
      rw [List.map_cons, internAll, fillCells, ← findOrAddCES_rules]
      cases findOrAddCES listEqs tbmp with
      | none => rfl
      | some step =>
          simp only [Option.bind_some, Option.map_some, ← ih, Option.map_map]
          rfl

/-- The loop runs to its end exactly when the class list has room for the
different rule sets it meets. -/
theorem fillCells_isSome_iff (tbmps : List Bmp) :
    (fillCells initListEqs tbmps).isSome ↔
      (tbmps.map bmpRules).toFinset.card ≤ mppMaxFilters := by
  rw [← internAll_nil_isSome_iff]
  have h := fillCells_rules initListEqs tbmps
  rw [show initListEqs.rules = [] from rfl] at h
  rw [← h, Option.isSome_map]

/-- A completed loop lists the rule sets it met, and the class stored for a
position stands for the rule set met there. -/
theorem fillCells_spec {tbmps : List Bmp} {listEqs : ListEqS}
    {values : List Nat}
    (h : fillCells initListEqs tbmps = some (listEqs, values)) :
    listEqs.Lists (tbmps.map bmpRules).toFinset ∧
      ∀ (cell : Nat → Nat) {indx : Nat} {rules : Finset Nat},
        (tbmps.map bmpRules)[indx]? = some rules →
          listEqs.ClassOf (storeCells cell values indx) rules := by
  have hrun : internAll mppMaxFilters [] (tbmps.map bmpRules) =
      some (listEqs.rules, values) := by
    rw [show ([] : List (Finset Nat)) = initListEqs.rules from rfl,
      ← fillCells_rules, h]
    rfl
  refine ⟨⟨internAll_nodup hrun List.nodup_nil, ?_⟩, ?_⟩
  · ext rules
    simp [(internAll_prefix_mem hrun).2 rules]
  · intro cell indx rules hrules
    obtain ⟨eqID, hvalue, hget⟩ := internAll_index hrun hrules
    simpa [ListEqS.ClassOf, storeCells, hvalue] using hget

/-- The rule sets that occur along component `com`. -/
def componentClasses (filtset : Filtset) (com : Fin 7) :
    Finset (Finset Nat) :=
  (Finset.range phase0Cells).image (coveredRules filtset com)

theorem mem_componentClasses {filtset : Filtset} {com : Fin 7}
    {rules : Finset Nat} :
    rules ∈ componentClasses filtset com ↔
      ∃ n < phase0Cells, coveredRules filtset com n = rules := by
  simp only [componentClasses, Finset.mem_image, Finset.mem_range]

theorem scanBmps_rules {filtset : Filtset}
    (hnum : filtset.numFilters ≤ mppMaxFilters) (hranges : filtset.RangesOk)
    (com : Fin 7) :
    (scanBmps filtset com phase0Cells 0 zeroBmp).map bmpRules =
      (List.range phase0Cells).map (coveredRules filtset com) := by
  rw [map_bmpRules_scanBmps hnum hranges com phase0Cells
    (n := 0) (by simp [sweptRules]), List.range_eq_range']

theorem scanBmps_toFinset {filtset : Filtset}
    (hnum : filtset.numFilters ≤ mppMaxFilters) (hranges : filtset.RangesOk)
    (com : Fin 7) :
    ((scanBmps filtset com phase0Cells 0 zeroBmp).map bmpRules).toFinset =
      componentClasses filtset com := by
  rw [scanBmps_rules hnum hranges com]
  ext rules
  simp [componentClasses]

/-- What a phase 0 table has to satisfy for the rules it was built from. -/
structure Pnode.Built (node : Pnode) (filtset : Filtset) (com : Fin 7) :
    Prop where
  lists : node.listEqs.Lists (componentClasses filtset com)
  cells : ∀ n < phase0Cells,
    node.listEqs.ClassOf (node.cell n) (coveredRules filtset com n)

theorem setPhase0Node_isSome_iff {filtset : Filtset}
    (hnum : filtset.numFilters ≤ mppMaxFilters) (hranges : filtset.RangesOk)
    (com : Fin 7) (node : Pnode) :
    (setPhase0Node filtset com node).isSome ↔
      (componentClasses filtset com).card ≤ mppMaxFilters := by
  rw [setPhase0Node, Option.isSome_map, fillCells_isSome_iff,
    scanBmps_toFinset hnum hranges com]

theorem setPhase0Node_built {filtset : Filtset}
    (hnum : filtset.numFilters ≤ mppMaxFilters) (hranges : filtset.RangesOk)
    {com : Fin 7} {node next : Pnode}
    (h : setPhase0Node filtset com node = some next) :
    next.Built filtset com := by
  simp only [setPhase0Node, Option.map_eq_some_iff, Prod.exists] at h
  obtain ⟨listEqs, values, hfill, rfl⟩ := h
  obtain ⟨hlists, hcells⟩ := fillCells_spec hfill
  rw [scanBmps_toFinset hnum hranges com] at hlists
  refine ⟨hlists, fun n hn => hcells node.cell ?_⟩
  rw [scanBmps_rules hnum hranges com]
  simp [hn]

/-- The rule sets two class lists have in common, pair by pair. -/
def meetClasses (left right : Finset (Finset Nat)) : Finset (Finset Nat) :=
  Finset.image₂ (· ∩ ·) left right

theorem mem_meetClasses {left right : Finset (Finset Nat)}
    {rules : Finset Nat} :
    rules ∈ meetClasses left right ↔
      ∃ first ∈ left, ∃ second ∈ right, first ∩ second = rules := by
  simp only [meetClasses, Finset.mem_image₂]

theorem getElem?_flatMap_map {A B C : Type} (f : A → B → C) {left : List A}
    {right : List B} {i j : Nat} {a : A} {b : B} (hleft : left[i]? = some a)
    (hright : right[j]? = some b) :
    (left.flatMap fun a => right.map (f a))[i * right.length + j]? =
      some (f a b) := by
  have hj : j < right.length := (List.getElem?_eq_some_iff.mp hright).1
  induction left generalizing i with
  | nil => simp at hleft
  | cons head tail ih =>
      rw [List.flatMap_cons]
      cases i with
      | zero =>
          rw [List.getElem?_cons_zero, Option.some.injEq] at hleft
          subst hleft
          rw [Nat.zero_mul, Nat.zero_add, List.getElem?_append_left
            (by simpa using hj), List.getElem?_map, hright, Option.map_some]
      | succ i =>
          rw [List.getElem?_cons_succ] at hleft
          have hoffset : (i + 1) * right.length + j =
              right.length + (i * right.length + j) := by
            rw [Nat.succ_mul]
            omega
          rw [hoffset, List.getElem?_append_right (by simp), List.length_map,
            Nat.add_sub_cancel_left]
          exact ih hleft

theorem intersectedBmps_rules (tnode1 tnode2 : ListEqS) :
    (intersectedBmps tnode1 tnode2).map bmpRules =
      tnode1.rules.flatMap fun rules => tnode2.rules.map (rules ∩ ·) := by
  simp only [intersectedBmps, ListEqS.rules, List.map_flatMap, List.map_map,
    List.flatMap_map, Function.comp_def, bmpRules_intersectBmp]

theorem intersectedBmps_toFinset {tnode1 tnode2 : ListEqS}
    {left right : Finset (Finset Nat)} (hleft : tnode1.Lists left)
    (hright : tnode2.Lists right) :
    ((intersectedBmps tnode1 tnode2).map bmpRules).toFinset =
      meetClasses left right := by
  rw [intersectedBmps_rules, ← hleft.2, ← hright.2]
  ext rules
  simp [meetClasses, Finset.mem_image₂]

/-- Row `i`, column `j` of the loop holds the common rules of class `i` and
class `j`. -/
theorem intersectedBmps_getElem? {tnode1 tnode2 : ListEqS} {i j : Nat}
    {left right : Finset Nat} (hleft : tnode1.ClassOf i left)
    (hright : tnode2.ClassOf j right) :
    ((intersectedBmps tnode1 tnode2).map bmpRules)[i * tnode2.nCES + j]? =
      some (left ∩ right) := by
  have hlength : tnode2.nCES = tnode2.rules.length := by
    simp [ListEqS.rules, ListEqS.nCES]
  rw [intersectedBmps_rules, hlength]
  exact getElem?_flatMap_map (fun rules other => rules ∩ other) hleft hright

/-- What a cross-product table has to satisfy for the class lists it was built
from. -/
structure Pnoder.Crosses (node : Pnoder) (tnode1 tnode2 : ListEqS) :
    Prop where
  ncells : node.ncells = tnode1.nCES * tnode2.nCES
  cells : ∀ {i j : Nat} {left right : Finset Nat}, tnode1.ClassOf i left →
    tnode2.ClassOf j right →
    node.listEqs.ClassOf (node.cell (i * tnode2.nCES + j)) (left ∩ right)

/-- The outcome of one table, from the cells and classes it needs. -/
def tableOutcome (cells classes : Nat) : Option AclRet :=
  if aclMaxCell < cells then some .error
  else if classes ≤ mppMaxFilters then some .ok
  else none

theorem crossNode_outcome {tnode1 tnode2 : ListEqS}
    {left right : Finset (Finset Nat)} (hleft : tnode1.Lists left)
    (hright : tnode2.Lists right) (node : Pnoder) :
    (crossNode tnode1 tnode2 node).map Prod.fst =
      tableOutcome (left.card * right.card) (meetClasses left right).card := by
  have hfill := fillCells_isSome_iff (intersectedBmps tnode1 tnode2)
  rw [intersectedBmps_toFinset hleft hright] at hfill
  simp only [crossNode, tableOutcome, hleft.nCES_eq, hright.nCES_eq]
  split
  · rfl
  · split
    · obtain ⟨done, hdone⟩ := Option.isSome_iff_exists.mp (hfill.mpr ‹_›)
      rw [hdone]
      rfl
    · have hnone : fillCells initListEqs (intersectedBmps tnode1 tnode2) =
          none := by
        rw [← Option.not_isSome_iff_eq_none, hfill]
        exact ‹_›
      rw [hnone]
      rfl

theorem crossNode_built {tnode1 tnode2 : ListEqS}
    {left right : Finset (Finset Nat)} (hleft : tnode1.Lists left)
    (hright : tnode2.Lists right) {node next : Pnoder}
    (h : crossNode tnode1 tnode2 node = some (.ok, next)) :
    next.listEqs.Lists (meetClasses left right) ∧
      next.Crosses tnode1 tnode2 := by
  simp only [crossNode] at h
  split at h
  · simp at h
  · simp only [Option.map_eq_some_iff, Prod.mk.injEq, Prod.exists,
      true_and] at h
    obtain ⟨listEqs, values, hfill, rfl⟩ := h
    obtain ⟨hlists, hcells⟩ := fillCells_spec hfill
    rw [intersectedBmps_toFinset hleft hright] at hlists
    refine ⟨hlists, rfl, ?_⟩
    intro i j rules other hrules hother
    exact hcells node.cell (intersectedBmps_getElem? hrules hother)

end Barley
