/-
The tables of phase 0 read as equivalence classes: two values share a class
exactly when the same enabled filters contain them, and the bitmap of a class
holds these filters.
-/
import Barley.RfcLookup

namespace Barley

attribute [local instance] neZero_dims

/-- Cell by cell, the table tells apart exactly the values that some enabled
filter tells apart; the bitmap of a cell's class has the bits of the filters
around the cell; and no bitmap is listed twice. -/
structure Pnode.Exact (node : Pnode) (filtset : Filtset) (com : Fin 7) :
    Prop where
  cells : ∀ n < phase0Cells, ∀ m < phase0Cells,
    (node.cell n = node.cell m ↔ ∀ i < filtset.numFilters,
      ((filtset.filtArr i).Covers com n ↔ (filtset.filtArr i).Covers com m))
  bits : ∀ n < phase0Cells, ∃ tCES,
    node.listEqs.ces[node.cell n]? = some tCES ∧
      ∀ i < mppMaxFilters, (testBmp tCES.cbm i = true ↔
        i < filtset.numFilters ∧ (filtset.filtArr i).Covers com n)
  distinct : (node.listEqs.ces.map CES.cbm).Nodup

section Classes

variable {filtset : Filtset} {com : Fin 7} {n m : Nat}

theorem coveredRules_eq_iff :
    coveredRules filtset com n = coveredRules filtset com m ↔
      ∀ i < filtset.numFilters, ((filtset.filtArr i).Covers com n ↔
        (filtset.filtArr i).Covers com m) := by
  rw [Finset.ext_iff]
  simp only [mem_coveredRules]
  exact forall_congr' fun i => and_congr_right_iff

/-- In a list without repetitions, a rule set has one class number only. -/
theorem ListEqS.ClassOf.eq_iff {listEqs : ListEqS} {eqID other : Nat}
    {rules rules' : Finset Nat} (hnodup : listEqs.rules.Nodup)
    (h : listEqs.ClassOf eqID rules) (h' : listEqs.ClassOf other rules') :
    eqID = other ↔ rules = rules' := by
  constructor
  · rintro rfl
    exact Option.some.inj (h.symm.trans h')
  · rintro rfl
    obtain ⟨hlt, _⟩ := List.getElem?_eq_some_iff.mp h
    exact (List.getElem?_inj hlt hnodup).mp (h.trans h'.symm)

/-- The class of a rule set has the set's bits. -/
theorem ListEqS.ClassOf.bits {listEqs : ListEqS} {eqID : Nat}
    {rules : Finset Nat} (h : listEqs.ClassOf eqID rules) :
    ∃ tCES, listEqs.ces[eqID]? = some tCES ∧
      ∀ i < mppMaxFilters, (testBmp tCES.cbm i = true ↔ i ∈ rules) := by
  rw [ListEqS.ClassOf, ListEqS.rules, List.getElem?_map,
    Option.map_eq_some_iff] at h
  obtain ⟨tCES, hget, rfl⟩ := h
  refine ⟨tCES, hget, fun i hi => ?_⟩
  rw [mem_bmpRules, and_iff_right hi]

/-- Rule sets that are all different have bitmaps that are all different. -/
theorem ListEqS.nodup_cbm {listEqs : ListEqS} (h : listEqs.rules.Nodup) :
    (listEqs.ces.map CES.cbm).Nodup := by
  refine List.Nodup.of_map bmpRules ?_
  rwa [List.map_map]

theorem Pnode.Built.exact {node : Pnode} (h : node.Built filtset com) :
    node.Exact filtset com where
  cells n hn m hm := by
    rw [(h.cells n hn).eq_iff h.lists.1 (h.cells m hm), coveredRules_eq_iff]
  bits n hn := by
    simp only [← mem_coveredRules]
    exact (h.cells n hn).bits
  distinct := ListEqS.nodup_cbm h.lists.1

end Classes

/-- Whatever the tables held before, the first phase fills each component's
table with the classes of the filters, provided that no component has more
classes than the list has slots. -/
theorem setPhase0Cell_exact (acl : MppAclFiltset)
    (hnum : acl.filtset.numFilters ≤ mppMaxFilters)
    (hranges : acl.filtset.RangesOk)
    (hclasses : ∀ com,
      (componentClasses acl.filtset com).card ≤ mppMaxFilters) :
    ∃ final, setPhase0Cell acl = some (.ok, final) ∧
      ∀ com, (final.phase0Nodes com).Exact acl.filtset com := by
  have houtcome := setPhase0Cell_outcome hnum hranges acl rfl
  rw [if_pos hclasses] at houtcome
  obtain ⟨⟨ret, final⟩, hrun, rfl⟩ := Option.map_eq_some_iff.mp houtcome
  exact ⟨final, hrun, fun com =>
    (setPhase0Cell_built hnum hranges rfl hrun com).exact⟩

/-- Two overlapping ranges in every component, the second one up to the last
value, and a filter that is not enabled. -/
def overlapFiltset : Filtset where
  numFilters := 3
  filtArr i :=
    if i = 0 then
      ⟨1, aclNosync, aclEnable, 0, 0, 0, 0, fun _ => (10, 30)⟩
    else if i = 1 then
      ⟨2, aclNosync, aclEnable, 0, 0, 0, 0, fun _ => (20, 65535)⟩
    else ⟨3, aclNosync, aclUnset, 0, 0, 0, 0, fun _ => (0, 0)⟩
  pktNum _ := 0
  pktBytes _ := 0

theorem overlapFiltset_rangesOk : overlapFiltset.RangesOk := by
  have hall : ∀ i < 3, ∀ com : Fin 7,
      ((overlapFiltset.filtArr i).dim com).1 ≤
        ((overlapFiltset.filtArr i).dim com).2 ∧
      ((overlapFiltset.filtArr i).dim com).2 ≤ 65535 := by
    decide
  exact hall

/-- The cells 20 and 25 are inside of both ranges, cell 40 is not. -/
theorem setPhase0Cell_exact_overlap :
    ∃ final, setPhase0Cell (.ofFiltset overlapFiltset) = some (.ok, final) ∧
      ∀ com, (final.phase0Nodes com).cell 20 =
          (final.phase0Nodes com).cell 25 ∧
        (final.phase0Nodes com).cell 20 ≠
          (final.phase0Nodes com).cell 40 := by
  have hclasses : ∀ com,
      (componentClasses overlapFiltset com).card ≤ mppMaxFilters := by
    intro com
    exact Nat.le_trans (card_classes_le (componentClasses_subset com))
      (by decide : 2 ^ 3 ≤ mppMaxFilters)
  obtain ⟨final, hrun, hexact⟩ := setPhase0Cell_exact
    (.ofFiltset overlapFiltset) (by decide) overlapFiltset_rangesOk hclasses
  have hlt : ∀ n ≤ 40, n < phase0Cells := by
    intro n hn
    rw [phase0Cells]
    omega
  have hsame : ∀ com : Fin 7, ∀ i < 3,
      ((overlapFiltset.filtArr i).Covers com 20 ↔
        (overlapFiltset.filtArr i).Covers com 25) := by
    decide
  have hdiffer : ∀ com : Fin 7,
      ¬ ((overlapFiltset.filtArr 0).Covers com 20 ↔
        (overlapFiltset.filtArr 0).Covers com 40) := by
    decide
  refine ⟨final, hrun, fun com => ⟨?_, fun heq => hdiffer com ?_⟩⟩
  · exact ((hexact com).cells 20 (hlt 20 (by decide)) 25
      (hlt 25 (by decide))).mpr (hsame com)
  · exact ((hexact com).cells 20 (hlt 20 (by decide)) 40
      (hlt 40 (by decide))).mp heq 0 (by decide)

end Barley
