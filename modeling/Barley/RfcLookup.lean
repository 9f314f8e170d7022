/-
The build as a whole and the lookup through its tables.  The outcome of a
build is decided by how many cells and classes the rule set needs; a completed
build answers every packet with the tag of its first matching rule.
-/
import Barley.RfcClassifier
import Mathlib.Data.Finset.Powerset

namespace Barley

attribute [local instance] neZero_dims

/-- The tables of a completed build for these rules. -/
structure MppAclFiltset.Built (acl : MppAclFiltset) (filtset : Filtset) :
    Prop where
  synced : acl.filtset = setFiltSync filtset
  phase0 : acl.Phase0Built filtset
  phase1 : ∀ com, acl.Phase1Built filtset com
  phase2 : ∀ com, acl.Phase2Built filtset com
  phase3 : acl.Phase3Built

section Build

variable {acl final : MppAclFiltset} {ret : AclRet}

/-- Every outcome of the build, errors included, leaves the filters with the
sync flags of the new rule set. -/
theorem preAclLookupByTuple_filtset
    (h : preAclLookupByTuple acl = some (ret, final)) :
    final.filtset = setFiltSync acl.filtset := by
  let P : MppAclFiltset → Prop := fun state =>
    state.filtset = setFiltSync acl.filtset
  have hphase3 : ∀ state, P state → ∀ ret final,
      setPhase3Cell state = some (ret, final) → P final :=
    fun state hstate ret final hstep =>
      (setPhase3Cell_frame hstep).1.filtset.trans hstate
  have hphase2 : ∀ state, P state → ∀ ret final,
      setPhase2Cell state = some (ret, final) → P final :=
    fun state hstate ret final hstep =>
      (setPhase2Cell_frame hstep).filtset.trans hstate
  have hphase1 : ∀ state, P state → ∀ ret final,
      setPhase1Cell state = some (ret, final) → P final :=
    fun state hstate ret final hstep =>
      (setPhase1Cell_frame hstep).filtset.trans hstate
  refine Build.andThen_preserves (P := P) h (fun ret state h => ?_) hphase3
  refine Build.andThen_preserves (P := P) h (fun ret state h => ?_) hphase2
  refine Build.andThen_preserves (P := P) h (fun ret state h => ?_) hphase1
  exact setPhase0Cell_filtset h

variable (hnum : acl.filtset.numFilters ≤ mppMaxFilters)
  (hranges : acl.filtset.RangesOk)

include hnum hranges

/-- The outcome of the build depends on the rule set only: the sweeps need
room for the classes of every component, then the six tables decide in their
order. -/
theorem preAclLookupByTuple_outcome :
    (preAclLookupByTuple acl).map Prod.fst =
      if ∀ com, (componentClasses acl.filtset com).card ≤ mppMaxFilters then
        runTables (tableNeeds acl.filtset)
      else none := by
  have houtcome := setPhase0Cell_outcome hnum hranges acl rfl
  cases hrun : setPhase0Cell acl with
  | none =>
      rw [hrun] at houtcome
      split at houtcome
      · simp at houtcome
      · rw [if_neg ‹_›, preAclLookupByTuple, hrun]
        rfl
  | some result =>
      obtain ⟨ret, state⟩ := result
      have hphase0 := setPhase0Cell_built hnum hranges rfl hrun
      rw [hrun] at houtcome
      split at houtcome
      swap
      · simp at houtcome
      obtain rfl : ret = .ok := by simpa using houtcome
      have htwo : ∀ next, setPhase1Cell state = some (.ok, next) →
          (setPhase2Cell next).map Prod.fst =
            runTables [phase2Need acl.filtset 0, phase2Need acl.filtset 1] :=
        fun next hnext => setPhase2Cell_outcome
          ((setPhase1Cell_frame hnext).phase0Built hphase0)
          (setPhase1Cell_built hphase0 hnext)
      have hthree : ∀ next,
          (setPhase1Cell state).andThen setPhase2Cell = some (.ok, next) →
          (setPhase3Cell next).map Prod.fst =
            runTables [phase3Need acl.filtset] := by
        intro next hnext
        obtain ⟨mid, hmid, hlast⟩ := Build.andThen_eq_some_ok.mp hnext
        exact setPhase3Cell_outcome (setPhase2Cell_built
          ((setPhase1Cell_frame hmid).phase0Built hphase0)
          (setPhase1Cell_built hphase0 hmid) hlast)
      have htables := andThen_runTables
        (andThen_runTables (setPhase1Cell_outcome hphase0) htwo) hthree
      rw [if_pos ‹_›, preAclLookupByTuple, hrun]
      simpa only [Build.andThen, tableNeeds, List.cons_append,
        List.nil_append] using htables

/-- A build that returns `ACL_OK` has built all tables. -/
theorem preAclLookupByTuple_built
    (h : preAclLookupByTuple acl = some (.ok, final)) :
    final.Built acl.filtset := by
  have hfiltset := preAclLookupByTuple_filtset h
  obtain ⟨third, h, hlast⟩ := Build.andThen_eq_some_ok.mp h
  obtain ⟨second, h, hsecond⟩ := Build.andThen_eq_some_ok.mp h
  obtain ⟨first, hzero, hfirst⟩ := Build.andThen_eq_some_ok.mp h
  have hphase0 := setPhase0Cell_built hnum hranges rfl hzero
  have hframe1 := setPhase1Cell_frame hfirst
  have hframe2 := setPhase2Cell_frame hsecond
  obtain ⟨hframe3, hnodes3⟩ := setPhase3Cell_frame hlast
  have hphase0second := hframe1.phase0Built hphase0
  have hphase1second := setPhase1Cell_built hphase0 hfirst
  have hphase2third := setPhase2Cell_built hphase0second hphase1second hsecond
  have hphase0third := hframe2.toAgree0.phase0Built hphase0second
  refine ⟨hfiltset, hframe3.toAgree0.phase0Built hphase0third, ?_, ?_,
    setPhase3Cell_built hlast⟩
  · intro com
    have hthird := (hphase1second com).of_agree0 hframe2.toAgree0
      (congrFun hframe2.phase1 com)
    exact hthird.of_agree0 hframe3.toAgree0 (congrFun hframe3.phase1 com)
  · intro com
    exact (hphase2third com).of_agree1 hframe3 (congrFun hnodes3 com)

end Build

theorem row_lt {rows columns i j : Nat} (hi : i < rows) (hj : j < columns) :
    i * columns + j < rows * columns := by
  calc
    i * columns + j < i * columns + columns := Nat.add_lt_add_left hj _
    _ = (i + 1) * columns := (Nat.succ_mul i columns).symm
    _ ≤ rows * columns := Nat.mul_le_mul_right columns hi

theorem Pnoder.Crosses.indx_lt {node : Pnoder} {tnode1 tnode2 : ListEqS}
    (h : node.Crosses tnode1 tnode2) {i j : Nat} {left right : Finset Nat}
    (hleft : tnode1.ClassOf i left) (hright : tnode2.ClassOf j right) :
    i * tnode2.nCES + j < node.ncells := by
  rw [h.ncells]
  exact row_lt hleft.lt hright.lt

/-- The filter is enabled and all its ranges contain the tuple. -/
def Filter.Matches (filt : Filter) (tuple : AclTuple) : Prop :=
  filt.state = aclEnable ∧ ∀ com, (filt.dim com).1 ≤ tuple.field com ∧
    tuple.field com ≤ (filt.dim com).2

instance (filt : Filter) (tuple : AclTuple) : Decidable (filt.Matches tuple) :=
  inferInstanceAs (Decidable (_ ∧ _))

/-- The lowest slot that matches. -/
def firstMatch (filtset : Filtset) (tuple : AclTuple) : Option Nat :=
  (List.range filtset.numFilters).find? fun i =>
    (filtset.filtArr i).Matches tuple

/-- The rules that cover every field of a tuple. -/
def tupleRules (filtset : Filtset) (tuple : AclTuple) : Finset Nat :=
  let covered := fun com => coveredRules filtset com (tuple.field com)
  covered 0 ∩ covered 1 ∩ (covered 2 ∩ covered 3) ∩
    (covered 4 ∩ covered 5 ∩ covered 6)

theorem mem_tupleRules {filtset : Filtset} {tuple : AclTuple} {i : Nat} :
    i ∈ tupleRules filtset tuple ↔
      i < filtset.numFilters ∧ (filtset.filtArr i).Matches tuple := by
  have hall : i ∈ tupleRules filtset tuple ↔
      ∀ com, i ∈ coveredRules filtset com (tuple.field com) := by
    simp only [tupleRules, Finset.mem_inter, Fin.forall_fin_succ,
      IsEmpty.forall_iff, and_true, and_assoc]
    rfl
  rw [hall]
  simp only [mem_coveredRules, Filter.Covers, Filter.Matches]
  constructor
  · intro h
    exact ⟨(h 0).1, (h 0).2.1, fun com => (h com).2.2⟩
  · rintro ⟨hi, hstate, hranges⟩ com
    exact ⟨hi, hstate, hranges com⟩

/-- The tag of a rule set of matching rules is the tag of the first match;
without a match it is the tag of the last slot. -/
theorem lowestRule_tupleRules (filtset : Filtset) (tuple : AclTuple) :
    lowestRule (tupleRules filtset tuple) =
      (firstMatch filtset tuple).getD (mppMaxFilters - 1) := by
  unfold lowestRule
  cases hfirst : firstMatch filtset tuple with
  | none =>
      have hempty : ¬ (tupleRules filtset tuple).Nonempty := by
        rintro ⟨i, hmem⟩
        obtain ⟨hi, hmatch⟩ := mem_tupleRules.mp hmem
        have hnone := List.find?_eq_none.mp hfirst i (List.mem_range.mpr hi)
        simp [hmatch] at hnone
      rw [dif_neg hempty, Option.getD_none]
  | some i =>
      obtain ⟨hmatch, hi, hbefore⟩ := List.find?_range_eq_some.mp hfirst
      have hmem : i ∈ tupleRules filtset tuple :=
        mem_tupleRules.mpr ⟨List.mem_range.mp hi, by simpa using hmatch⟩
      rw [dif_pos ⟨i, hmem⟩, Option.getD_some]
      apply Nat.le_antisymm (Finset.min'_le _ i hmem)
      refine Finset.le_min' _ _ _ fun j hj => ?_
      by_contra hlt
      have hother := hbefore j (Nat.not_le.mp hlt)
      simp [(mem_tupleRules.mp hj).2] at hother

section Lookup

variable {acl : MppAclFiltset} {filtset : Filtset}

/-- The classes a lookup meets stand for the rules that cover the fields it
has read so far, and every index stays inside its table. -/
theorem MppAclFiltset.Built.lookup (hbuilt : acl.Built filtset)
    (tuple : AclTuple) :
    (∀ t, aclLookupIndx acl tuple t < (acl.tables t).ncells) ∧
      aclLookupByTuple acl tuple = aclGetTagidByRuleid acl.filtset
        (lowestRule (tupleRules filtset tuple)) := by
  have hcid : ∀ com, (acl.phase0Nodes com).listEqs.ClassOf
      ((acl.phase0Nodes com).cell (tuple.field com))
      (coveredRules filtset com (tuple.field com)) := fun com =>
    (hbuilt.phase0 com).cells _ (tuple.field_lt com)
  have hcid7 := (hbuilt.phase1 0).crosses.cells (hcid 0) (hcid 1)
  have hcid8 := (hbuilt.phase1 1).crosses.cells (hcid 2) (hcid 3)
  have hcid9 := (hbuilt.phase1 2).crosses.cells (hcid 4) (hcid 5)
  have hcid10 := (hbuilt.phase2 0).crosses.cells hcid7 hcid8
  have hcid11 := (hbuilt.phase2 1).crosses.cells hcid9 (hcid 6)
  constructor
  · intro t
    fin_cases t
    · exact (hbuilt.phase1 0).crosses.indx_lt (hcid 0) (hcid 1)
    · exact (hbuilt.phase1 1).crosses.indx_lt (hcid 2) (hcid 3)
    · exact (hbuilt.phase1 2).crosses.indx_lt (hcid 4) (hcid 5)
    · exact (hbuilt.phase2 0).crosses.indx_lt hcid7 hcid8
    · exact (hbuilt.phase2 1).crosses.indx_lt hcid9 (hcid 6)
    · have hlast := row_lt hcid10.lt hcid11.lt
      rw [← hbuilt.phase3.ncells] at hlast
      exact hlast
  · exact hbuilt.phase3.cells hcid10 hcid11

/-- The tag of a lookup is read from the slot of the first match, or from the
last slot of the filter array. -/
theorem MppAclFiltset.Built.lookup_tag (hbuilt : acl.Built filtset)
    (tuple : AclTuple) :
    aclLookupByTuple acl tuple = (filtset.filtArr
      ((firstMatch filtset tuple).getD (mppMaxFilters - 1))).cost % 2 ^ 16 := by
  rw [(hbuilt.lookup tuple).2, lowestRule_tupleRules, aclGetTagidByRuleid,
    hbuilt.synced, setFiltSync_cost]

end Lookup

/-- The classifier answers with the tag of the first enabled filter that
matches, as the 16 bit value the tag function returns, and with 0 when no
filter matches; no index leaves its table. -/
theorem aclLookupByTuple_first_match {acl final : MppAclFiltset}
    (hnum : acl.filtset.numFilters ≤ mppMaxFilters - 1)
    (hranges : acl.filtset.RangesOk)
    (hlast : (acl.filtset.filtArr (mppMaxFilters - 1)).cost = 0)
    (hbuild : preAclLookupByTuple acl = some (.ok, final))
    (tuple : AclTuple) :
    (∀ t, aclLookupIndx final tuple t < (final.tables t).ncells) ∧
      aclLookupByTuple final tuple =
        match firstMatch acl.filtset tuple with
        | some i => (acl.filtset.filtArr i).cost % 2 ^ 16
        | none => 0 := by
  have hbuilt := preAclLookupByTuple_built (Nat.le_trans hnum (Nat.sub_le _ _))
    hranges hbuild
  refine ⟨(hbuilt.lookup tuple).1, ?_⟩
  rw [hbuilt.lookup_tag]
  cases firstMatch acl.filtset tuple with
  | none => simp [hlast]
  | some i => rfl

section Few

variable {filtset : Filtset}

/-- Every class is a set of rules. -/
theorem card_classes_le {classes : Finset (Finset Nat)} {count : Nat}
    (h : ∀ rules ∈ classes, rules ⊆ Finset.range count) :
    classes.card ≤ 2 ^ count := by
  have hsubset : classes ⊆ (Finset.range count).powerset := fun rules hmem =>
    Finset.mem_powerset.mpr (h rules hmem)
  calc
    classes.card ≤ (Finset.range count).powerset.card :=
      Finset.card_le_card hsubset
    _ = 2 ^ count := by rw [Finset.card_powerset, Finset.card_range]

theorem componentClasses_subset (com : Fin 7) :
    ∀ rules ∈ componentClasses filtset com,
      rules ⊆ Finset.range filtset.numFilters := by
  intro rules hmem
  obtain ⟨n, _, rfl⟩ := mem_componentClasses.mp hmem
  exact fun i hi => Finset.mem_range.mpr (mem_coveredRules.mp hi).1

theorem meetClasses_subset {left right : Finset (Finset Nat)} {all : Finset Nat}
    (hleft : ∀ rules ∈ left, rules ⊆ all) :
    ∀ rules ∈ meetClasses left right, rules ⊆ all := by
  intro rules hmem
  obtain ⟨first, hfirst, second, _, rfl⟩ := mem_meetClasses.mp hmem
  exact Finset.inter_subset_left.trans (hleft first hfirst)

/-- Nine rules or less fit into the tables, whatever they are. -/
theorem runTables_ok_of_few (hfew : filtset.numFilters ≤ 9) :
    runTables (tableNeeds filtset) = some .ok := by
  have hcomponent : ∀ com, ∀ rules ∈ componentClasses filtset com,
      rules ⊆ Finset.range filtset.numFilters := componentClasses_subset
  have hphase1 : ∀ com, ∀ rules ∈ phase1Classes filtset com,
      rules ⊆ Finset.range filtset.numFilters := fun com =>
    meetClasses_subset (hcomponent _)
  have hphase2 : ∀ com, ∀ rules ∈ phase2Classes filtset com,
      rules ⊆ Finset.range filtset.numFilters := by
    intro com
    fin_cases com
    · exact meetClasses_subset (hphase1 0)
    · exact meetClasses_subset (hphase1 2)
  have hpow : 2 ^ filtset.numFilters ≤ 512 :=
    Nat.pow_le_pow_right (by decide) hfew
  have hcard : ∀ {classes : Finset (Finset Nat)},
      (∀ rules ∈ classes, rules ⊆ Finset.range filtset.numFilters) →
      classes.card ≤ 512 := fun h => (card_classes_le h).trans hpow
  have hfits : ∀ {a b c : Nat}, a ≤ 512 → b ≤ 512 → c ≤ 512 →
      a * b ≤ aclMaxCell ∧ c ≤ mppMaxFilters := by
    intro a b c ha hb hc
    have hmul := Nat.mul_le_mul ha hb
    simp only [aclMaxCell, mppMaxFilters]
    omega
  rw [runTables_ok_iff, tableNeeds]
  simp only [List.forall_mem_cons, List.not_mem_nil, false_implies,
    implies_true, and_true]
  exact ⟨hfits (hcard (hcomponent _)) (hcard (hcomponent _))
      (hcard (hphase1 0)),
    hfits (hcard (hcomponent _)) (hcard (hcomponent _)) (hcard (hphase1 1)),
    hfits (hcard (hcomponent _)) (hcard (hcomponent _)) (hcard (hphase1 2)),
    hfits (hcard (hphase1 0)) (hcard (hphase1 1)) (hcard (hphase2 0)),
    hfits (hcard (hphase1 2)) (hcard (hcomponent 6)) (hcard (hphase2 1)),
    hfits (hcard (hphase2 0)) (hcard (hphase2 1)) (Nat.zero_le 512)⟩

/-- A build of few rules succeeds. -/
theorem preAclLookupByTuple_of_few (hfew : filtset.numFilters ≤ 9)
    (hranges : filtset.RangesOk) :
    ∃ final, preAclLookupByTuple (.ofFiltset filtset) = some (.ok, final) := by
  have hclasses : ∀ com,
      (componentClasses filtset com).card ≤ mppMaxFilters := by
    intro com
    calc
      (componentClasses filtset com).card ≤ 2 ^ filtset.numFilters :=
        card_classes_le (componentClasses_subset com)
      _ ≤ 2 ^ 9 := Nat.pow_le_pow_right (by decide) hfew
      _ ≤ mppMaxFilters := by decide
  have hnum : filtset.numFilters ≤ mppMaxFilters :=
    Nat.le_trans hfew (by decide)
  have houtcome : (preAclLookupByTuple (.ofFiltset filtset)).map Prod.fst =
      if ∀ com, (componentClasses filtset com).card ≤ mppMaxFilters then
        runTables (tableNeeds filtset)
      else none := preAclLookupByTuple_outcome hnum hranges
  rw [if_pos hclasses] at houtcome
  obtain ⟨⟨ret, final⟩, hbuild, rfl⟩ := Option.map_eq_some_iff.mp
    (houtcome.trans (runTables_ok_of_few hfew))
  exact ⟨final, hbuild⟩

end Few

/-- Two enabled filters with overlapping ranges, behind one for every packet
that is not enabled. -/
def threeFilters : Filtset where
  numFilters := 3
  filtArr i :=
    if i = 0 then
      ⟨1, aclNosync, aclUnset, 0, 0, 0, 0, fun _ => (0, 65535)⟩
    else if i = 1 then
      ⟨2, aclNosync, aclEnable, 0, 0, 0, 0, fun _ => (10, 30)⟩
    else if i = 2 then
      ⟨3, aclNosync, aclEnable, 0, 0, 0, 0, fun _ => (20, 65535)⟩
    else ⟨0, aclNosync, aclUnset, 0, 0, 0, 0, fun _ => (0, 0)⟩
  pktNum _ := 0
  pktBytes _ := 0

/-- A packet with the same value in every field. -/
def sameFields (value : Nat) (h : value < 256) : AclTuple :=
  have hword : value < 65536 := Nat.lt_trans h (by decide)
  ⟨value, value, value, value, value, value, value, hword, hword, hword, hword,
    hword, hword, h⟩

/-- Both enabled filters match 25, one of them 40, and none 0. -/
theorem aclLookupByTuple_threeFilters :
    ∃ final, preAclLookupByTuple (.ofFiltset threeFilters) =
        some (.ok, final) ∧
      aclLookupByTuple final (sameFields 25 (by decide)) = 2 ∧
      aclLookupByTuple final (sameFields 40 (by decide)) = 3 ∧
      aclLookupByTuple final (sameFields 0 (by decide)) = 0 := by
  have hranges : threeFilters.RangesOk := by
    have hall : ∀ i < 3, ∀ com : Fin 7,
        ((threeFilters.filtArr i).dim com).1 ≤
          ((threeFilters.filtArr i).dim com).2 ∧
        ((threeFilters.filtArr i).dim com).2 ≤ 65535 := by
      decide
    exact hall
  obtain ⟨final, hbuild⟩ :=
    preAclLookupByTuple_of_few (by decide : threeFilters.numFilters ≤ 9) hranges
  have hanswer : ∀ (tuple : AclTuple) (first : Option Nat),
      firstMatch threeFilters tuple = first →
      aclLookupByTuple final tuple = match first with
        | some i => (threeFilters.filtArr i).cost % 2 ^ 16
        | none => 0 := by
    rintro tuple _ rfl
    exact (aclLookupByTuple_first_match
      (by exact (by decide : 3 ≤ mppMaxFilters - 1)) hranges rfl hbuild tuple).2
  exact ⟨final, hbuild, hanswer _ (some 1) (by decide),
    hanswer _ (some 2) (by decide), hanswer _ none (by decide)⟩

/-- One enabled filter that matches every packet. -/
def matchAllFiltset (cost : Nat) : Filtset where
  numFilters := 1
  filtArr i :=
    if i = 0 then ⟨cost, aclNosync, aclEnable, 0, 0, 0, 0, fun _ => (0, 65535)⟩
    else ⟨0, aclNosync, aclUnset, 0, 0, 0, 0, fun _ => (0, 0)⟩
  pktNum _ := 0
  pktBytes _ := 0

theorem matchAllFiltset_rangesOk (cost : Nat) :
    (matchAllFiltset cost).RangesOk := by
  intro i hi com
  obtain rfl : i = 0 := Nat.lt_one_iff.mp hi
  simp [matchAllFiltset]

/-- A packet with every field zero. -/
def zeroTuple : AclTuple :=
  ⟨0, 0, 0, 0, 0, 0, 0, by decide, by decide, by decide, by decide,
    by decide, by decide, by decide⟩

theorem firstMatch_matchAllFiltset (cost : Nat) :
    firstMatch (matchAllFiltset cost) zeroTuple = some 0 := by
  have hfield : ∀ com, zeroTuple.field com ≤ 65535 := by decide
  have hmatch : ((matchAllFiltset cost).filtArr 0).Matches zeroTuple :=
    ⟨rfl, fun com => ⟨Nat.zero_le _, hfield com⟩⟩
  simpa [firstMatch, matchAllFiltset] using hmatch

/-- A filter whose tag needs more than 16 bits is answered with another
tag. -/
theorem aclLookupByTuple_ne_wide_cost :
    ¬ ∀ acl final : MppAclFiltset,
      acl.filtset.numFilters ≤ mppMaxFilters - 1 → acl.filtset.Sorted →
      acl.filtset.RangesOk →
      (acl.filtset.filtArr (mppMaxFilters - 1)).cost = 0 →
      preAclLookupByTuple acl = some (.ok, final) →
      ∀ tuple,
        (∀ t, aclLookupIndx final tuple t < (final.tables t).ncells) ∧
          aclLookupByTuple final tuple =
            match firstMatch acl.filtset tuple with
            | some i => (acl.filtset.filtArr i).cost
            | none => 0 := by
  intro hclaim
  obtain ⟨final, hbuild⟩ := preAclLookupByTuple_of_few
    (by decide : (matchAllFiltset 65536).numFilters ≤ 9)
    (matchAllFiltset_rangesOk 65536)
  have hnum : (matchAllFiltset 65536).numFilters ≤ mppMaxFilters := by decide
  have hsorted : (matchAllFiltset 65536).Sorted := by
    intro i j hij hj
    have hj' : j < 1 := hj
    omega
  have hwide := (hclaim _ final (by exact (by decide : 1 ≤ mppMaxFilters - 1))
    hsorted (matchAllFiltset_rangesOk 65536) rfl hbuild zeroTuple).2
  have hbuilt := preAclLookupByTuple_built (by exact hnum)
    (matchAllFiltset_rangesOk 65536) hbuild
  rw [hbuilt.lookup_tag, show firstMatch (MppAclFiltset.ofFiltset
    (matchAllFiltset 65536)).filtset zeroTuple = some 0 from
    firstMatch_matchAllFiltset 65536] at hwide
  exact absurd hwide (by decide)

end Barley
