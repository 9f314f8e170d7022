/-
How many classes a rule set needs.  Rules whose fields are exact values or
wildcards keep the class lists of single fields and of single addresses small,
but the lists of port pairs and of address pairs can outgrow their arrays long
before a table has too many cells.
-/
import Barley.RfcLookup
import Barley.RuleMap

namespace Barley

attribute [local instance] neZero_dims

/-- The upper end of the range a wildcard stores. -/
def wildEnd (com : Fin 7) : Nat := if com = 6 then 255 else 65535

/-- Every used slot holds the ranges of some arguments of `acl_setfilter`. -/
def Filtset.Installed (filtset : Filtset) : Prop :=
  ∀ i < filtset.numFilters, ∃ args : RuleArgs,
    (filtset.filtArr i).dim = args.dim

theorem Filtset.Stores.installed {filtset : Filtset} {map : RuleMap}
    (h : filtset.Stores map) : filtset.Installed := by
  intro i hi
  have hslot : filtset.slotOf (filtset.filtArr i).cost =
      some (filtset.filtArr i) :=
    (SortedSlots.lookup_eq_some_iff h.sorted).mpr ⟨i, hi, rfl, rfl⟩
  rw [h.slots, Option.map_eq_some_iff] at hslot
  obtain ⟨entry, _, hfilt⟩ := hslot
  exact ⟨entry.args, by rw [← hfilt]; rfl⟩

/-- A stored range is a wildcard or a single value. -/
theorem RuleArgs.dim_cases (args : RuleArgs) (com : Fin 7) :
    args.dim com = (0, wildEnd com) ∨
      ∃ value ≤ 65535, args.dim com = (value, value) := by
  have hsip := args.sip_lt
  have hdip := args.dip_lt
  have hsp := args.sp_lt
  have hdp := args.dp_lt
  have hproto := args.protocol_lt
  have hport : ∀ port < 2 ^ 16, aclReadPort port = (0, 65535) ∨
      ∃ value ≤ 65535, aclReadPort port = (value, value) := by
    intro port hlt
    unfold aclReadPort
    split
    · exact .inr ⟨port, by omega, rfl⟩
    · exact .inl rfl
  have hip : ∀ ip < 2 ^ 32,
      ((aclReadiprange ip).1 = (0, 65535) ∨
        ∃ value ≤ 65535, (aclReadiprange ip).1 = (value, value)) ∧
      ((aclReadiprange ip).2 = (0, 65535) ∨
        ∃ value ≤ 65535, (aclReadiprange ip).2 = (value, value)) := by
    intro ip hlt
    rw [aclReadiprange_eq hlt]
    split
    · exact ⟨.inl rfl, .inl rfl⟩
    · exact ⟨.inr ⟨ip / 65536, by omega, rfl⟩,
        .inr ⟨ip % 65536, by omega, rfl⟩⟩
  have hprotocol : aclReadProtocol args.protocol = (0, 255) ∨
      ∃ value ≤ 65535, aclReadProtocol args.protocol = (value, value) := by
    unfold aclReadProtocol
    split
    · exact .inl rfl
    · exact .inr ⟨args.protocol, by omega, rfl⟩
  fin_cases com
  · exact (hip _ hsip).1
  · exact (hip _ hsip).2
  · exact (hip _ hdip).1
  · exact (hip _ hdip).2
  · exact hport _ hsp
  · exact hport _ hdp
  · exact hprotocol

theorem Filtset.Installed.rangesOk {filtset : Filtset}
    (h : filtset.Installed) : filtset.RangesOk := by
  intro i hi com
  obtain ⟨args, hdim⟩ := h i hi
  rw [hdim]
  rcases args.dim_cases com with hwild | ⟨value, hvalue, hexact⟩
  · rw [hwild]
    simp only [wildEnd]
    split <;> omega
  · rw [hexact]
    exact ⟨Nat.le_refl value, hvalue⟩

/-- The rules that name a single value of component `com`. -/
def exactRules (filtset : Filtset) (com : Fin 7) : Finset Nat :=
  (Finset.range filtset.numFilters).filter fun i =>
    ((filtset.filtArr i).dim com).1 = ((filtset.filtArr i).dim com).2

/-- The enabled rules that have a wildcard in component `com`. -/
def wildRules (filtset : Filtset) (com : Fin 7) : Finset Nat :=
  (Finset.range filtset.numFilters).filter fun i =>
    (filtset.filtArr i).state = aclEnable ∧
      (filtset.filtArr i).dim com = (0, wildEnd com)

/-- A value that no rule names is covered by the wildcards or by nothing. -/
theorem coveredRules_cases {filtset : Filtset} (h : filtset.Installed)
    (com : Fin 7) (n : Nat) :
    coveredRules filtset com n = ∅ ∨
      coveredRules filtset com n = wildRules filtset com ∨
      ∃ i ∈ exactRules filtset com, coveredRules filtset com n =
        coveredRules filtset com ((filtset.filtArr i).dim com).1 := by
  by_cases hnamed : ∃ i < filtset.numFilters,
      (filtset.filtArr i).dim com = (n, n)
  · obtain ⟨i, hi, hdim⟩ := hnamed
    refine .inr (.inr ⟨i, ?_, by rw [hdim]⟩)
    simp [exactRules, hi, hdim]
  · push Not at hnamed
    have hwild : ∀ i < filtset.numFilters,
        (filtset.filtArr i).Covers com n ↔
          ((filtset.filtArr i).state = aclEnable ∧
            (filtset.filtArr i).dim com = (0, wildEnd com)) ∧
          n ≤ wildEnd com := by
      intro i hi
      obtain ⟨args, hdim⟩ := h i hi
      have hne := hnamed i hi
      rw [Filter.Covers]
      rw [hdim] at hne ⊢
      rcases args.dim_cases com with heq | ⟨value, _, heq⟩
      · rw [heq]
        simp
      · rw [heq] at hne ⊢
        have hvalue : value ≠ n := fun hv => hne (by rw [hv])
        have hend : (value, value) ≠ (0, wildEnd com) := by
          intro hv
          rw [Prod.mk.injEq] at hv
          have : wildEnd com ≠ 0 := by
            unfold wildEnd
            split <;> omega
          omega
        simp only [hend, and_false, false_and, iff_false, not_and]
        omega
    by_cases hend : n ≤ wildEnd com
    · refine .inr (.inl ?_)
      ext i
      simp only [mem_coveredRules, wildRules, Finset.mem_filter,
        Finset.mem_range]
      constructor
      · rintro ⟨hi, hcovers⟩
        exact ⟨hi, ((hwild i hi).mp hcovers).1⟩
      · rintro ⟨hi, hall⟩
        exact ⟨hi, (hwild i hi).mpr ⟨hall, hend⟩⟩
    · refine .inl (Finset.eq_empty_of_forall_notMem fun i hmem => ?_)
      obtain ⟨hi, hcovers⟩ := mem_coveredRules.mp hmem
      exact hend ((hwild i hi).mp hcovers).2

/-- A field has at most two classes more than rules that name a value. -/
theorem card_componentClasses_le {filtset : Filtset} (h : filtset.Installed)
    (com : Fin 7) :
    (componentClasses filtset com).card ≤ (exactRules filtset com).card + 2 := by
  have hsubset : componentClasses filtset com ⊆
      {∅, wildRules filtset com} ∪ (exactRules filtset com).image fun i =>
        coveredRules filtset com ((filtset.filtArr i).dim com).1 := by
    intro rules hmem
    obtain ⟨n, _, rfl⟩ := mem_componentClasses.mp hmem
    rw [Finset.mem_union, Finset.mem_insert, Finset.mem_singleton,
      Finset.mem_image]
    rcases coveredRules_cases h com n with hnone | hwild | ⟨i, hi, heq⟩
    · exact .inl (.inl hnone)
    · exact .inl (.inr hwild)
    · exact .inr ⟨i, hi, heq.symm⟩
  calc
    (componentClasses filtset com).card
        ≤ _ := Finset.card_le_card hsubset
    _ ≤ _ := Finset.card_union_le _ _
    _ ≤ 2 + (exactRules filtset com).card :=
        Nat.add_le_add Finset.card_le_two Finset.card_image_le
    _ = (exactRules filtset com).card + 2 := Nat.add_comm _ _

/-- Both halves of an address are wildcards or both are single values. -/
theorem RuleArgs.address_cases (args : RuleArgs) {com : Fin 3}
    (hcom : com ≠ 2) :
    (args.dim (phase1Inputs com).1 = (0, 65535) ∧
      args.dim (phase1Inputs com).2 = (0, 65535)) ∨
      ∃ high low, args.dim (phase1Inputs com).1 = (high, high) ∧
        args.dim (phase1Inputs com).2 = (low, low) := by
  have hip : ∀ ip < 2 ^ 32,
      ((aclReadiprange ip).1 = (0, 65535) ∧
        (aclReadiprange ip).2 = (0, 65535)) ∨
      ∃ high low, (aclReadiprange ip).1 = (high, high) ∧
        (aclReadiprange ip).2 = (low, low) := by
    intro ip hlt
    rw [aclReadiprange_eq hlt]
    split
    · exact .inl ⟨rfl, rfl⟩
    · exact .inr ⟨ip / 65536, ip % 65536, rfl, rfl⟩
  fin_cases com
  · exact hip _ args.sip_lt
  · exact hip _ args.dip_lt
  · exact absurd rfl hcom

/-- An address that no rule names is matched by the wildcards alone. -/
theorem addressRules_cases {filtset : Filtset} (h : filtset.Installed)
    {com : Fin 3} (hcom : com ≠ 2) {high low : Nat}
    (hhigh : high < phase0Cells) (hlow : low < phase0Cells) :
    coveredRules filtset (phase1Inputs com).1 high ∩
        coveredRules filtset (phase1Inputs com).2 low =
      wildRules filtset (phase1Inputs com).1 ∨
    ∃ i < filtset.numFilters,
      coveredRules filtset (phase1Inputs com).1 high ∩
          coveredRules filtset (phase1Inputs com).2 low =
        coveredRules filtset (phase1Inputs com).1
            ((filtset.filtArr i).dim (phase1Inputs com).1).1 ∩
          coveredRules filtset (phase1Inputs com).2
            ((filtset.filtArr i).dim (phase1Inputs com).2).1 := by
  have hend : wildEnd (phase1Inputs com).1 = 65535 := by
    fin_cases com <;> rfl
  simp only [phase0Cells] at hhigh hlow
  by_cases hnamed : ∃ i < filtset.numFilters,
      (filtset.filtArr i).dim (phase1Inputs com).1 = (high, high) ∧
        (filtset.filtArr i).dim (phase1Inputs com).2 = (low, low)
  · obtain ⟨i, hi, hdim1, hdim2⟩ := hnamed
    exact .inr ⟨i, hi, by rw [hdim1, hdim2]⟩
  · left
    ext i
    simp only [Finset.mem_inter, mem_coveredRules, wildRules,
      Finset.mem_filter, Finset.mem_range, Filter.Covers, hend]
    by_cases hi : i < filtset.numFilters
    · obtain ⟨args, hdim⟩ := h i hi
      simp only [hi, true_and, hdim]
      rcases args.address_cases hcom with ⟨hwild1, hwild2⟩ | ⟨v, w, hv, hw⟩
      · simp only [hwild1, hwild2]
        constructor
        · exact fun hcovers => ⟨hcovers.1.1, trivial⟩
        · exact fun hwild => ⟨⟨hwild.1, Nat.zero_le _, by omega⟩,
            hwild.1, Nat.zero_le _, by omega⟩
      · rw [hv, hw]
        simp only [Prod.mk.injEq]
        constructor
        · rintro ⟨⟨_, hlo1, hhi1⟩, _, hlo2, hhi2⟩
          have hvhigh : v = high := Nat.le_antisymm hlo1 hhi1
          have hwlow : w = low := Nat.le_antisymm hlo2 hhi2
          refine absurd ⟨i, hi, ?_, ?_⟩ hnamed
          · rw [hdim, hv, hvhigh]
          · rw [hdim, hw, hwlow]
        · rintro ⟨_, hzero, hlast⟩
          omega
    · simp [hi]

/-- The classes of an address are at most one more than the rules. -/
theorem card_addressClasses_le {filtset : Filtset} (h : filtset.Installed)
    {com : Fin 3} (hcom : com ≠ 2) :
    (phase1Classes filtset com).card ≤ filtset.numFilters + 1 := by
  have hsubset : phase1Classes filtset com ⊆
      {wildRules filtset (phase1Inputs com).1} ∪
        (Finset.range filtset.numFilters).image fun i =>
          coveredRules filtset (phase1Inputs com).1
              ((filtset.filtArr i).dim (phase1Inputs com).1).1 ∩
            coveredRules filtset (phase1Inputs com).2
              ((filtset.filtArr i).dim (phase1Inputs com).2).1 := by
    intro rules hmem
    obtain ⟨high, hhigh, low, hlow, rfl⟩ := mem_phase1Classes.mp hmem
    rw [Finset.mem_union, Finset.mem_singleton, Finset.mem_image]
    rcases addressRules_cases h hcom hhigh hlow with hwild | ⟨i, hi, heq⟩
    · exact .inl hwild
    · exact .inr ⟨i, Finset.mem_range.mpr hi, heq.symm⟩
  calc
    (phase1Classes filtset com).card
        ≤ _ := Finset.card_le_card hsubset
    _ ≤ _ := Finset.card_union_le _ _
    _ ≤ 1 + filtset.numFilters := by
        apply Nat.add_le_add (Nat.le_of_eq (Finset.card_singleton _))
        exact Finset.card_image_le.trans (Nat.le_of_eq (Finset.card_range _))
    _ = filtset.numFilters + 1 := Nat.add_comm _ _

/-- Few classes on either side make a small table. -/
theorem phase1Need_le {filtset : Filtset} {com : Fin 3} {rows columns : Nat}
    (hrows : (componentClasses filtset (phase1Inputs com).1).card ≤ rows)
    (hcolumns :
      (componentClasses filtset (phase1Inputs com).2).card ≤ columns) :
    (phase1Need filtset com).1 ≤ rows * columns ∧
      (phase1Need filtset com).2 ≤ rows * columns := by
  have hcells := Nat.mul_le_mul hrows hcolumns
  exact ⟨hcells, (Finset.card_image₂_le _ _ _).trans hcells⟩

/-- The three class lists that can outgrow their arrays do not: the one of the
port pairs, of the address pairs and of the port pairs with a protocol.  A
list counts only when its table is reached, that is when no table up to it has
too many cells. -/
structure Filtset.ClassesFit (filtset : Filtset) : Prop where
  ports : (phase1Need filtset 0).1 ≤ aclMaxCell →
    (phase1Need filtset 1).1 ≤ aclMaxCell →
    (phase1Need filtset 2).1 ≤ aclMaxCell →
    (phase1Classes filtset 2).card ≤ mppMaxFilters
  addresses : (phase1Need filtset 0).1 ≤ aclMaxCell →
    (phase1Need filtset 1).1 ≤ aclMaxCell →
    (phase1Need filtset 2).1 ≤ aclMaxCell →
    (phase2Need filtset 0).1 ≤ aclMaxCell →
    (phase2Classes filtset 0).card ≤ mppMaxFilters
  portsProtocol : (phase1Need filtset 0).1 ≤ aclMaxCell →
    (phase1Need filtset 1).1 ≤ aclMaxCell →
    (phase1Need filtset 2).1 ≤ aclMaxCell →
    (phase2Need filtset 0).1 ≤ aclMaxCell →
    (phase2Need filtset 1).1 ≤ aclMaxCell →
    (phase2Classes filtset 1).card ≤ mppMaxFilters

section Capacity

variable {filtset : Filtset} {map : RuleMap} (hstores : filtset.Stores map)

include hstores

theorem Filtset.Stores.numFilters_le_max :
    filtset.numFilters ≤ mppMaxFilters :=
  Nat.le_trans hstores.numFilters_le (by decide)

/-- The sweeps of phase 0 always have room. -/
theorem card_componentClasses_le_max (com : Fin 7) :
    (componentClasses filtset com).card ≤ mppMaxFilters := by
  have hcard := card_componentClasses_le hstores.installed com
  have hexact : (exactRules filtset com).card ≤ filtset.numFilters :=
    (Finset.card_filter_le _ _).trans (Nat.le_of_eq (Finset.card_range _))
  have hmax := hstores.numFilters_le
  simp only [aclMax, mppMaxFilters] at *
  omega

theorem preAclLookupByTuple_stores_outcome (old : MppAclFiltset) :
    (preAclLookupByTuple { old with filtset := filtset }).map Prod.fst =
      runTables (tableNeeds filtset) := by
  rw [preAclLookupByTuple_outcome hstores.numFilters_le_max
    hstores.installed.rangesOk]
  exact if_pos (card_componentClasses_le_max hstores)

theorem runTables_tableNeeds_ne_none_iff :
    runTables (tableNeeds filtset) ≠ none ↔ filtset.ClassesFit := by
  have hmax := hstores.numFilters_le
  have hsip : (phase1Classes filtset 0).card ≤ mppMaxFilters := by
    have hcard := card_addressClasses_le hstores.installed
      (by decide : (0 : Fin 3) ≠ 2)
    simp only [aclMax, mppMaxFilters] at *
    omega
  have hdip : (phase1Classes filtset 1).card ≤ mppMaxFilters := by
    have hcard := card_addressClasses_le hstores.installed
      (by decide : (1 : Fin 3) ≠ 2)
    simp only [aclMax, mppMaxFilters] at *
    omega
  have hcons : ∀ need rest, runTables (need :: rest) ≠ none ↔
      (need.1 ≤ aclMaxCell → need.2 ≤ mppMaxFilters ∧
        runTables rest ≠ none) := fun need rest =>
    runTables_cons_ne_none need.1 need.2 rest
  have hnil : runTables [] ≠ none := by simp [runTables]
  have hneed1 : ∀ com, (phase1Need filtset com).2 =
      (phase1Classes filtset com).card := fun _ => rfl
  have hneed2 : ∀ com, (phase2Need filtset com).2 =
      (phase2Classes filtset com).card := fun _ => rfl
  have hneed3 : (phase3Need filtset).2 ≤ mppMaxFilters := Nat.zero_le _
  rw [tableNeeds]
  simp only [hcons, hneed1, hneed2]
  constructor
  · intro h
    refine ⟨fun h0 h1 h2 => ?_, fun h0 h1 h2 h3 => ?_,
      fun h0 h1 h2 h3 h4 => ?_⟩
    · exact (((h h0).2 h1).2 h2).1
    · exact ((((h h0).2 h1).2 h2).2 h3).1
    · exact (((((h h0).2 h1).2 h2).2 h3).2 h4).1
  · intro h h0
    refine ⟨hsip, fun h1 => ⟨hdip, fun h2 => ⟨h.ports h0 h1 h2, fun h3 =>
      ⟨h.addresses h0 h1 h2 h3, fun h4 =>
        ⟨h.portsProtocol h0 h1 h2 h3 h4, fun _ => ⟨hneed3, hnil⟩⟩⟩⟩⟩⟩

theorem preAclLookupByTuple_ne_none_iff (old : MppAclFiltset) :
    preAclLookupByTuple { old with filtset := filtset } ≠ none ↔
      filtset.ClassesFit := by
  rw [← runTables_tableNeeds_ne_none_iff hstores,
    ← preAclLookupByTuple_stores_outcome hstores old, ne_eq, ne_eq,
    Option.map_eq_none_iff]

end Capacity

/-- No class list is left, and rules that need longer lists are refused. -/
def CapacityKept (acl : MppAclFiltset) : Prop :=
  preAclLookupByTuple acl ≠ none ∧
    ((∃ need ∈ tableNeeds acl.filtset, mppMaxFilters < need.2) →
      ∃ final, preAclLookupByTuple acl = some (.error, final))

/-- The cell check is the only one, so the class lists are kept exactly when
every table that is reached has few classes. -/
theorem capacityKept_iff (ops : List StoreOp) (old : MppAclFiltset) :
    CapacityKept { old with filtset := runStore ops } ↔
      (runStore ops).ClassesFit := by
  have hstores := runStore_stores ops
  have houtcome := preAclLookupByTuple_stores_outcome hstores old
  rw [← preAclLookupByTuple_ne_none_iff hstores old]
  refine ⟨fun h => h.1, fun h => ⟨h, ?_⟩⟩
  rintro ⟨need, hneed, hmore⟩
  obtain ⟨⟨ret, final⟩, hrun⟩ := Option.ne_none_iff_exists'.mp h
  cases ret with
  | ok =>
      rw [hrun, Option.map_some] at houtcome
      have hfits := (runTables_ok_iff _).mp houtcome.symm need hneed
      omega
  | error => exact ⟨final, hrun⟩

/-- A rule that names ports only. -/
def portArgs (sp dp : Nat) (hsp : sp < 2 ^ 16) (hdp : dp < 2 ^ 16) :
    RuleArgs where
  sip := 0
  dip := 0
  sp := sp
  dp := dp
  protocol := 0
  op := 0
  action := 0
  ruleType := 0
  ruleSource := 0
  sip_lt := by decide
  dip_lt := by decide
  sp_lt := hsp
  dp_lt := hdp
  protocol_lt := by decide
  op_lt := by decide
  action_lt := by decide
  ruleType_lt := by decide
  ruleSource_lt := by decide

/-- 45 rules with the source ports 1 to 45 and 45 rules with the destination
ports 1 to 45. -/
def crossingArgs (t : Fin 90) : RuleArgs :=
  if t.val < 45 then portArgs (t + 1) 0 (by omega) (by decide)
  else portArgs 0 (t - 44) (by decide) (by omega)

theorem crossing_le : 90 ≤ aclMax := by decide

/-- The rules above, set with the tags 1 to 90. -/
def crossingRules : Filtset :=
  runStore (installed crossing_le crossingArgs)

theorem crossingRules_numFilters : crossingRules.numFilters = 90 := by
  rw [crossingRules, runStore_installed_numFilters]

theorem crossingRules_slot (t : Fin 90) :
    ∃ i < 90, (crossingRules.filtArr i).state = aclEnable ∧
      (crossingRules.filtArr i).dim = (crossingArgs t).dim := by
  rw [crossingRules]
  obtain ⟨i, hi, hstate, _, hdim⟩ :=
    runStore_installed_slot crossing_le crossingArgs t
  exact ⟨i, hi, hstate, hdim⟩

theorem crossingRules_source {s : Nat} (hs : 0 < s) (hle : s ≤ 45) :
    ∃ i < 90, (crossingRules.filtArr i).state = aclEnable ∧
      (crossingRules.filtArr i).dim 4 = (s, s) ∧
      (crossingRules.filtArr i).dim 5 = (0, 65535) := by
  obtain ⟨i, hi, hstate, hdim⟩ := crossingRules_slot ⟨s - 1, by omega⟩
  refine ⟨i, hi, hstate, ?_⟩
  have hargs : crossingArgs ⟨s - 1, by omega⟩ =
      portArgs s 0 (by omega) (by decide) := by
    have hsub : s - 1 + 1 = s := by omega
    simp only [crossingArgs, hsub]
    exact if_pos (by omega)
  rw [hdim, hargs]
  refine ⟨?_, rfl⟩
  show aclReadPort s = (s, s)
  rw [aclReadPort, if_pos (by omega)]

theorem crossingRules_destination {d : Nat} (hd : 0 < d) (hle : d ≤ 45) :
    ∃ i < 90, (crossingRules.filtArr i).state = aclEnable ∧
      (crossingRules.filtArr i).dim 4 = (0, 65535) ∧
      (crossingRules.filtArr i).dim 5 = (d, d) := by
  obtain ⟨i, hi, hstate, hdim⟩ := crossingRules_slot ⟨d + 44, by omega⟩
  refine ⟨i, hi, hstate, ?_⟩
  have hargs : crossingArgs ⟨d + 44, by omega⟩ =
      portArgs 0 d (by decide) (by omega) := by
    simp only [crossingArgs, Nat.add_sub_cancel]
    exact if_neg (by omega)
  rw [hdim, hargs]
  refine ⟨rfl, ?_⟩
  show aclReadPort d = (d, d)
  rw [aclReadPort, if_pos (by omega)]

/-- Different port pairs up to 45 are matched by different rules. -/
theorem crossingRules_pairs {s d s' d' : Nat} (hs : s ≤ 45) (hd : d ≤ 45)
    (hs' : s' ≤ 45) (hd' : d' ≤ 45)
    (heq : coveredRules crossingRules 4 s ∩ coveredRules crossingRules 5 d =
      coveredRules crossingRules 4 s' ∩ coveredRules crossingRules 5 d') :
    s = s' ∧ d = d' := by
  have hmem : ∀ i, i ∈ coveredRules crossingRules 4 s ∩
      coveredRules crossingRules 5 d ↔ i ∈ coveredRules crossingRules 4 s' ∩
      coveredRules crossingRules 5 d' := fun i => by rw [heq]
  simp only [Finset.mem_inter, mem_coveredRules, crossingRules_numFilters,
    Filter.Covers] at hmem
  have hsource : ∀ a, 0 < a → a ≤ 45 → (a = s ↔ a = s') := by
    intro a hpos hle
    obtain ⟨i, hi, hstate, hdim4, hdim5⟩ := crossingRules_source hpos hle
    have hrule := hmem i
    simp only [hi, hstate, hdim4, hdim5, true_and] at hrule
    omega
  have hdestination : ∀ a, 0 < a → a ≤ 45 → (a = d ↔ a = d') := by
    intro a hpos hle
    obtain ⟨i, hi, hstate, hdim4, hdim5⟩ := crossingRules_destination hpos hle
    have hrule := hmem i
    simp only [hi, hstate, hdim4, hdim5, true_and] at hrule
    omega
  constructor
  · have hleft := hsource s
    have hright := hsource s'
    omega
  · have hleft := hdestination d
    have hright := hdestination d'
    omega

theorem crossingRules_ports :
    mppMaxFilters < (phase1Classes crossingRules 2).card := by
  have hsubset : (Finset.range 46 ×ˢ Finset.range 46).image
      (fun pair => coveredRules crossingRules 4 pair.1 ∩
        coveredRules crossingRules 5 pair.2) ⊆
      phase1Classes crossingRules 2 := by
    intro rules hmem
    obtain ⟨⟨s, d⟩, hpair, rfl⟩ := Finset.mem_image.mp hmem
    simp only [Finset.mem_product, Finset.mem_range] at hpair
    refine mem_phase1Classes.mpr ⟨s, ?_, d, ?_, rfl⟩
    · rw [phase0Cells]
      omega
    · rw [phase0Cells]
      omega
  have hcard := Finset.card_le_card hsubset
  rw [Finset.card_image_of_injOn, Finset.card_product, Finset.card_range]
    at hcard
  · simp only [mppMaxFilters]
    omega
  · rintro ⟨s, d⟩ hpair ⟨s', d'⟩ hpair' heq
    simp only [Finset.coe_product, Finset.coe_range, Set.mem_prod,
      Set.mem_Iio] at hpair hpair'
    obtain ⟨rfl, rfl⟩ := crossingRules_pairs (by omega) (by omega) (by omega)
      (by omega) heq
    rfl

theorem crossingRules_cells (com : Fin 3) :
    (phase1Need crossingRules com).1 ≤ aclMaxCell := by
  have hinstalled : crossingRules.Installed := by
    rw [crossingRules]
    exact (runStore_stores _).installed
  have hnum := crossingRules_numFilters
  have hcomponent : ∀ com, (componentClasses crossingRules com).card ≤ 92 := by
    intro com
    have hcard := card_componentClasses_le hinstalled com
    have hexact : (exactRules crossingRules com).card ≤
        crossingRules.numFilters :=
      (Finset.card_filter_le _ _).trans (Nat.le_of_eq (Finset.card_range _))
    omega
  calc
    (phase1Need crossingRules com).1
        ≤ 92 * 92 := (phase1Need_le (hcomponent _) (hcomponent _)).1
    _ ≤ aclMaxCell := by decide

/-- Ninety rules are enough to write behind the last class of a list. -/
theorem crossingRules_not_capacityKept :
    ¬ ∀ (ops : List StoreOp) (old : MppAclFiltset),
      CapacityKept { old with filtset := runStore ops } := by
  intro hclaim
  have hkept := (hclaim (installed crossing_le crossingArgs)
    (.ofFiltset emptyFiltset)).1
  have hfit : crossingRules.ClassesFit := by
    rw [crossingRules]
    exact (preAclLookupByTuple_ne_none_iff (runStore_stores _) _).mp hkept
  have hports := hfit.ports (crossingRules_cells 0) (crossingRules_cells 1)
    (crossingRules_cells 2)
  exact absurd hports (Nat.not_le.mpr crossingRules_ports)

end Barley
