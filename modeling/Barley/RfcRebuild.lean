/-
Rebuilding the tables of a running classifier.  The sync flags are set by the
first phase, before any size check can fail, so a build that returns an error
has always changed a flag.
-/
import Barley.RfcCapacity

namespace Barley

/-- A call on the classifier: a change of the rules, or a rebuild. -/
inductive AclCall where
  | store (op : StoreOp)
  | rebuild

/-- The state after a call; `none` when a rebuild leaves a class list. -/
def AclCall.apply : AclCall → MppAclFiltset → Option MppAclFiltset
  | .store op, acl => some { acl with filtset := op.apply acl.filtset }
  | .rebuild, acl => (preAclLookupByTuple acl).map Prod.snd

/-- A history of calls from the zeroed state. -/
def runCalls (calls : List AclCall) : Option MppAclFiltset :=
  calls.foldlM (fun acl call => call.apply acl) (.ofFiltset emptyFiltset)

/-- The classifier with changed rules and the tables as they were. -/
def MppAclFiltset.change (acl : MppAclFiltset) (ops : List StoreOp) :
    MppAclFiltset :=
  { acl with
    filtset := ops.foldl (fun filtset op => op.apply filtset) acl.filtset }

/-- The flag `set_filt_sync` gives a used slot. -/
def syncOf (filt : Filter) : Nat :=
  if filt.state = aclEnable then aclSync else aclNosync

theorem setFiltSync_filtArr (filtset : Filtset) {i : Nat}
    (hi : i < filtset.numFilters) :
    (setFiltSync filtset).filtArr i =
      { filtset.filtArr i with sync := syncOf (filtset.filtArr i) } := by
  simp only [setFiltSync, hi, if_true, syncOf]
  by_cases hstate : (filtset.filtArr i).state = aclEnable
  · rw [if_neg (not_not.mpr hstate), if_pos hstate]
  · rw [if_pos hstate, if_neg hstate]

/-- Setting the flags changes nothing else in the store. -/
theorem Filtset.Stores.setFiltSync_map {filtset : Filtset} {map : RuleMap}
    (h : filtset.Stores map) :
    (Barley.setFiltSync filtset).Stores fun tag => (map tag).map fun entry =>
      { entry with sync := syncOf (entry.filter tag) } := by
  refine ⟨?_, ?_, ?_, ?_⟩
  · intro i j hij hj
    rw [setFiltSync_cost, setFiltSync_cost]
    exact h.sorted i j hij hj
  · intro tag
    have hslot := SortedSlots.lookup_map
      (f := fun filt : Filter => { filt with sync := syncOf filt })
      (fun _ => rfl) (fun i hi => setFiltSync_filtArr filtset hi) h.sorted tag
    have hold := h.slots tag
    rw [Filtset.slotOf] at hold
    rw [hold] at hslot
    simpa [Filtset.slotOf, Function.comp_def, RuleEntry.filter] using hslot
  · intro tag hsome
    exact h.tags tag (by simpa using hsome)
  · intro i hi hmax
    have hi' : filtset.numFilters ≤ i := hi
    exact (if_neg (Nat.not_lt.mpr hi')).trans (h.cleared i hi' hmax)

theorem Filtset.Stores.setFiltSync {filtset : Filtset} {map : RuleMap}
    (h : filtset.Stores map) :
    ∃ map', (Barley.setFiltSync filtset).Stores map' :=
  ⟨_, h.setFiltSync_map⟩

/-- Every state a history reaches has a well-formed rule store. -/
theorem runCalls_stores {calls : List AclCall} {acl : MppAclFiltset}
    (h : runCalls calls = some acl) : ∃ map, acl.filtset.Stores map := by
  have hstep : ∀ (call : AclCall) (acl next : MppAclFiltset),
      (∃ map, acl.filtset.Stores map) → call.apply acl = some next →
      ∃ map, next.filtset.Stores map := by
    rintro call acl next ⟨map, hstores⟩ hcall
    cases call with
    | store op =>
        obtain rfl := Option.some.inj hcall
        exact ⟨_, op.apply_stores hstores⟩
    | rebuild =>
        obtain ⟨⟨ret, final⟩, hpre, rfl⟩ := Option.map_eq_some_iff.mp hcall
        rw [preAclLookupByTuple_filtset hpre]
        exact hstores.setFiltSync
  have hrun : ∀ (calls : List AclCall) (start : MppAclFiltset),
      (∃ map, start.filtset.Stores map) →
      calls.foldlM (fun acl call => call.apply acl) start = some acl →
      ∃ map, acl.filtset.Stores map := by
    intro calls
    induction calls with
    | nil =>
        intro start hstart hfold
        obtain rfl := Option.some.inj hfold
        exact hstart
    | cons call rest ih =>
        intro start hstart hfold
        obtain ⟨next, hcall, htail⟩ := Option.bind_eq_some_iff.mp hfold
        exact ih next (hstep call start next hstart hcall) htail
  exact hrun calls _ ⟨_, emptyFiltset_stores⟩ h

/-- Every enabled rule has the ranges of an enabled rule of `base`. -/
def Filtset.Within (filtset base : Filtset) : Prop :=
  ∀ i < filtset.numFilters, (filtset.filtArr i).state = aclEnable →
    ∃ k < base.numFilters, (base.filtArr k).state = aclEnable ∧
      (base.filtArr k).dim = (filtset.filtArr i).dim

section Restrict

variable {filtset base : Filtset} {restrict : Finset Nat → Finset Nat}
  (hcovered : ∀ com n, coveredRules filtset com n =
    restrict (coveredRules base com n))
  (hinter : ∀ left right,
    restrict (left ∩ right) = restrict left ∩ restrict right)

include hcovered

theorem componentClasses_restrict (com : Fin 7) :
    componentClasses filtset com =
      (componentClasses base com).image restrict := by
  rw [componentClasses, componentClasses, Finset.image_image]
  apply Finset.image_congr
  intro n _
  exact hcovered com n

include hinter

omit hcovered in
theorem meetClasses_restrict (left right : Finset (Finset Nat)) :
    meetClasses (left.image restrict) (right.image restrict) =
      (meetClasses left right).image restrict :=
  (Finset.image_image₂_distrib hinter).symm

theorem phase1Classes_restrict (com : Fin 3) :
    phase1Classes filtset com = (phase1Classes base com).image restrict := by
  rw [phase1Classes, phase1Classes, componentClasses_restrict hcovered,
    componentClasses_restrict hcovered, meetClasses_restrict hinter]

theorem phase2Parts_restrict (com : Fin 2) :
    phase2Parts filtset com = ((phase2Parts base com).1.image restrict,
      (phase2Parts base com).2.image restrict) := by
  fin_cases com
  · simp only [phase2Parts, phase1Classes_restrict hcovered hinter]
  · simp only [phase2Parts, phase1Classes_restrict hcovered hinter,
      componentClasses_restrict hcovered]

theorem phase2Classes_restrict (com : Fin 2) :
    phase2Classes filtset com = (phase2Classes base com).image restrict := by
  rw [phase2Classes, phase2Parts_restrict hcovered hinter,
    meetClasses_restrict hinter, phase2Classes]

/-- Restricted rules need no more than the rules they come from. -/
theorem runTables_restrict (hbase : runTables (tableNeeds base) = some .ok) :
    runTables (tableNeeds filtset) = some .ok := by
  have hcomponent : ∀ com, (componentClasses filtset com).card ≤
      (componentClasses base com).card := fun com => by
    rw [componentClasses_restrict hcovered]
    exact Finset.card_image_le
  have hone : ∀ com, (phase1Classes filtset com).card ≤
      (phase1Classes base com).card := fun com => by
    rw [phase1Classes_restrict hcovered hinter]
    exact Finset.card_image_le
  have hparts : ∀ com, (phase2Parts filtset com).1.card ≤
      (phase2Parts base com).1.card ∧ (phase2Parts filtset com).2.card ≤
      (phase2Parts base com).2.card := fun com => by
    rw [phase2Parts_restrict hcovered hinter]
    exact ⟨Finset.card_image_le, Finset.card_image_le⟩
  have htwo : ∀ com, (phase2Classes filtset com).card ≤
      (phase2Classes base com).card := fun com => by
    rw [phase2Classes_restrict hcovered hinter]
    exact Finset.card_image_le
  have hneed1 : ∀ com, (phase1Need filtset com).1 ≤ (phase1Need base com).1 ∧
      (phase1Need filtset com).2 ≤ (phase1Need base com).2 := fun com =>
    ⟨Nat.mul_le_mul (hcomponent _) (hcomponent _), hone com⟩
  have hneed2 : ∀ com, (phase2Need filtset com).1 ≤ (phase2Need base com).1 ∧
      (phase2Need filtset com).2 ≤ (phase2Need base com).2 := fun com =>
    ⟨Nat.mul_le_mul (hparts com).1 (hparts com).2, htwo com⟩
  have hneed3 : (phase3Need filtset).1 ≤ (phase3Need base).1 ∧
      (phase3Need filtset).2 ≤ (phase3Need base).2 :=
    ⟨Nat.mul_le_mul (htwo 0) (htwo 1), Nat.le_refl 0⟩
  have hfits : ∀ {need other : Nat × Nat},
      need.1 ≤ other.1 ∧ need.2 ≤ other.2 →
      other.1 ≤ aclMaxCell ∧ other.2 ≤ mppMaxFilters →
      need.1 ≤ aclMaxCell ∧ need.2 ≤ mppMaxFilters := fun hle hother =>
    ⟨Nat.le_trans hle.1 hother.1, Nat.le_trans hle.2 hother.2⟩
  rw [runTables_ok_iff, tableNeeds] at hbase ⊢
  simp only [List.forall_mem_cons] at hbase ⊢
  obtain ⟨h0, h1, h2, h3, h4, h5, hnil⟩ := hbase
  exact ⟨hfits (hneed1 0) h0, hfits (hneed1 1) h1, hfits (hneed1 2) h2,
    hfits (hneed2 0) h3, hfits (hneed2 1) h4, hfits hneed3 h5,
    fun need hmem => by simp at hmem⟩

end Restrict

/-- Rules taken from a rule set that was built can be built as well. -/
theorem Filtset.Within.runTables_ok {filtset base : Filtset}
    (h : filtset.Within base)
    (hbase : runTables (tableNeeds base) = some .ok) :
    runTables (tableNeeds filtset) = some .ok := by
  choose! origin horigin using h
  let restrict : Finset Nat → Finset Nat := fun rules =>
    (Finset.range filtset.numFilters).filter fun i =>
      (filtset.filtArr i).state = aclEnable ∧ origin i ∈ rules
  have hcovered : ∀ com n, coveredRules filtset com n =
      restrict (coveredRules base com n) := by
    intro com n
    ext i
    simp only [restrict, mem_coveredRules, Finset.mem_filter,
      Finset.mem_range, Filter.Covers]
    constructor
    · rintro ⟨hi, hstate, hrange⟩
      obtain ⟨hk, hkstate, hdim⟩ := horigin i hi hstate
      exact ⟨hi, hstate, hk, hkstate, by rw [hdim]; exact hrange⟩
    · rintro ⟨hi, hstate, _, _, hrange⟩
      obtain ⟨_, _, hdim⟩ := horigin i hi hstate
      rw [hdim] at hrange
      exact ⟨hi, hstate, hrange⟩
  have hinter : ∀ left right,
      restrict (left ∩ right) = restrict left ∩ restrict right := by
    intro left right
    ext i
    simp only [restrict, Finset.mem_filter, Finset.mem_inter]
    tauto
  exact runTables_restrict hcovered hinter hbase

/-- Every rule that counts as synced has the ranges of an enabled rule of
`base`. -/
def Filtset.SyncedFrom (filtset base : Filtset) : Prop :=
  ∀ i < filtset.numFilters, (filtset.filtArr i).sync = aclSync →
    ∃ k < base.numFilters, (base.filtArr k).state = aclEnable ∧
      (base.filtArr k).dim = (filtset.filtArr i).dim

theorem setFiltSync_syncedFrom (base : Filtset) :
    (setFiltSync base).SyncedFrom base := by
  intro i hi hsync
  have hi' : i < base.numFilters := hi
  rw [setFiltSync_filtArr base hi'] at hsync ⊢
  refine ⟨i, hi', ?_, rfl⟩
  by_contra hstate
  simp [syncOf, hstate, aclSync, aclNosync] at hsync

/-- Rules that are set later are not synced, so changing the rules keeps
this. -/
theorem Filtset.SyncedFrom.foldl {base filtset : Filtset} {map : RuleMap}
    (hstores : filtset.Stores map) (h : filtset.SyncedFrom base)
    (ops : List StoreOp) :
    (∃ map, (ops.foldl (fun filtset op => op.apply filtset) filtset).Stores
        map) ∧
      (ops.foldl (fun filtset op => op.apply filtset) filtset).SyncedFrom
        base := by
  induction ops generalizing filtset map with
  | nil => exact ⟨⟨map, hstores⟩, h⟩
  | cons op rest ih =>
      refine ih (op.apply_stores hstores) ?_
      refine StoreOp.apply_forall (P := fun filt => filt.sync = aclSync →
        ∃ k < base.numFilters, (base.filtArr k).state = aclEnable ∧
          (base.filtArr k).dim = filt.dim) ?_ ?_ hstores h op
      · intro targetid args hsync
        exact absurd hsync (by decide : aclNosync ≠ aclSync)
      · exact fun filt enable hfilt => hfilt

/-- The call left the running classifier alone: every packet gets the tag it
got before, all indexes are in range and no sync flag has changed. -/
structure KeepsClassifier (acl final : MppAclFiltset) : Prop where
  tags : ∀ tuple, aclLookupByTuple final tuple = aclLookupByTuple acl tuple
  indexes : ∀ tuple t, aclLookupIndx final tuple t < (final.tables t).ncells
  sync : ∀ i < acl.filtset.numFilters,
    (final.filtset.filtArr i).sync = (acl.filtset.filtArr i).sync

section Failure

variable {calls : List AclCall} {before built : MppAclFiltset}
  (hreach : runCalls calls = some before)
  (hbuild : preAclLookupByTuple before = some (.ok, built))

include hreach hbuild

/-- After a build and a change of the rules, the store is well-formed and its
synced rules are among the rules of that build. -/
theorem change_syncedFrom (ops : List StoreOp) :
    (∃ map, (built.change ops).filtset.Stores map) ∧
      (built.change ops).filtset.SyncedFrom before.filtset := by
  obtain ⟨map, hstores⟩ := runCalls_stores hreach
  obtain ⟨map', hstores'⟩ := hstores.setFiltSync
  rw [← preAclLookupByTuple_filtset hbuild] at hstores'
  refine Filtset.SyncedFrom.foldl hstores' ?_ ops
  rw [preAclLookupByTuple_filtset hbuild]
  exact setFiltSync_syncedFrom before.filtset

theorem change_outcome (ops : List StoreOp) :
    (preAclLookupByTuple (built.change ops)).map Prod.fst =
      runTables (tableNeeds (built.change ops).filtset) := by
  obtain ⟨⟨map, hstores⟩, _⟩ := change_syncedFrom hreach hbuild ops
  exact preAclLookupByTuple_stores_outcome hstores (built.change ops)

/-- A build that fails has changed a sync flag. -/
theorem not_keepsClassifier_of_error {ops : List StoreOp}
    {final : MppAclFiltset}
    (herror : preAclLookupByTuple (built.change ops) = some (.error, final)) :
    ¬ KeepsClassifier (built.change ops) final := by
  intro hkeeps
  obtain ⟨map, hbefore⟩ := runCalls_stores hreach
  obtain ⟨_, hsynced⟩ := change_syncedFrom hreach hbuild ops
  -- with unchanged flags every enabled rule was part of the last build
  have hwithin : (built.change ops).filtset.Within before.filtset := by
    intro i hi hstate
    refine hsynced i hi ?_
    rw [← hkeeps.sync i hi, preAclLookupByTuple_filtset herror,
      setFiltSync_filtArr _ hi]
    exact if_pos hstate
  have hbase : (preAclLookupByTuple before).map Prod.fst =
      runTables (tableNeeds before.filtset) :=
    preAclLookupByTuple_stores_outcome hbefore before
  have hnew := change_outcome hreach hbuild ops
  rw [hbuild, Option.map_some] at hbase
  rw [hwithin.runTables_ok hbase.symm, herror] at hnew
  simp at hnew

/-- A rule set is refused exactly when a table that is reached has too many
cells, and the running classifier is kept only when no rule set is refused. -/
theorem keepsClassifier_iff (ops : List StoreOp) :
    (∀ final, preAclLookupByTuple (built.change ops) = some (.error, final) →
      KeepsClassifier (built.change ops) final) ↔
      ∀ earlier need later,
        tableNeeds (built.change ops).filtset = earlier ++ need :: later →
        (∀ other ∈ earlier,
          other.1 ≤ aclMaxCell ∧ other.2 ≤ mppMaxFilters) →
        need.1 ≤ aclMaxCell := by
  rw [← runTables_ne_error_iff, ← change_outcome hreach hbuild ops]
  constructor
  · intro hkeeps herror
    obtain ⟨⟨ret, final⟩, hpre, rfl⟩ := Option.map_eq_some_iff.mp herror
    exact not_keepsClassifier_of_error hreach hbuild hpre (hkeeps final hpre)
  · intro hne final hpre
    refine absurd ?_ hne
    exact congrArg (Option.map Prod.fst) hpre

end Failure

/-- The classifier can be built before any rule is set. -/
theorem preAclLookupByTuple_empty :
    ∃ built, preAclLookupByTuple (.ofFiltset emptyFiltset) =
      some (.ok, built) := by
  have houtcome := preAclLookupByTuple_stores_outcome emptyFiltset_stores
    (.ofFiltset emptyFiltset)
  rw [runTables_ok_of_few (Nat.zero_le 9)] at houtcome
  obtain ⟨⟨ret, built⟩, hbuild, rfl⟩ := Option.map_eq_some_iff.mp houtcome
  exact ⟨built, hbuild⟩

/-- What a change makes of the rules of an empty build. -/
theorem preAclLookupByTuple_empty_change {built : MppAclFiltset}
    (hbuild : preAclLookupByTuple (.ofFiltset emptyFiltset) =
      some (.ok, built)) (ops : List StoreOp) :
    (built.change ops).filtset = runStore ops := by
  have hfiltset : built.filtset = emptyFiltset := by
    rw [preAclLookupByTuple_filtset hbuild]
    rfl
  rw [MppAclFiltset.change, hfiltset, runStore]

theorem two_le_aclMax : 2 ≤ aclMax := by decide

theorem lt_two_pow_of_isLt (t : Fin 2) : t.val + 1 < 2 ^ 16 :=
  Nat.lt_of_le_of_lt t.isLt (by decide)

/-- A rule for the source port 1, and one for the source port 2. -/
def twoPorts : List StoreOp :=
  installed two_le_aclMax fun t =>
    portArgs (t.val + 1) 0 (lt_two_pow_of_isLt t) (Nat.two_pow_pos 16)

/-- Two rules with different ports after an empty build. -/
theorem keepsClassifier_twoPorts :
    ∃ built, preAclLookupByTuple (.ofFiltset emptyFiltset) =
        some (.ok, built) ∧
      (built.change twoPorts).filtset.numFilters = 2 ∧
      ∀ final, preAclLookupByTuple (built.change twoPorts) =
          some (.error, final) →
        KeepsClassifier (built.change twoPorts) final := by
  obtain ⟨built, hbuild⟩ := preAclLookupByTuple_empty
  have hreach : runCalls [] = some (.ofFiltset emptyFiltset) := rfl
  have hrules := preAclLookupByTuple_empty_change hbuild twoPorts
  have hnum : (runStore twoPorts).numFilters = 2 := by
    rw [twoPorts, runStore_installed_numFilters]
  refine ⟨built, hbuild, hrules ▸ hnum, ?_⟩
  rw [keepsClassifier_iff hreach hbuild twoPorts, ← runTables_ne_error_iff,
    hrules, runTables_ok_of_few (hnum ▸ (by decide : 2 ≤ 9))]
  simp

/-- A field of which the values 1 to `m` are named has a class for each of
them and one more. -/
theorem le_card_componentClasses {filtset : Filtset} {com : Fin 7} {m : Nat}
    (hm : m < phase0Cells)
    (hnamed : ∀ v, 0 < v → v ≤ m → ∃ i < filtset.numFilters,
      (filtset.filtArr i).state = aclEnable ∧
        (filtset.filtArr i).dim com = (v, v)) :
    m + 1 ≤ (componentClasses filtset com).card := by
  have hsubset : (Finset.range (m + 1)).image (coveredRules filtset com) ⊆
      componentClasses filtset com := by
    apply Finset.image_subset_image
    intro n hn
    rw [Finset.mem_range] at hn ⊢
    omega
  have hcard := Finset.card_le_card hsubset
  rw [Finset.card_image_of_injOn, Finset.card_range] at hcard
  · exact hcard
  · intro a ha b hb heq
    simp only [Finset.coe_range, Set.mem_Iio] at ha hb
    have hiff : ∀ v, 0 < v → v ≤ m → (v = a ↔ v = b) := by
      intro v hpos hle
      obtain ⟨i, hi, hstate, hdim⟩ := hnamed v hpos hle
      have hrule := Finset.ext_iff.mp heq i
      simp only [mem_coveredRules, Filter.Covers, hi, hstate, hdim,
        true_and] at hrule
      omega
    have hleft := hiff a
    have hright := hiff b
    omega

theorem lt_phase1Need_ports {filtset : Filtset} {sources destinations : Nat}
    (hmany : aclMaxCell < sources * destinations)
    (hsp : sources ≤ (componentClasses filtset 4).card)
    (hdp : destinations ≤ (componentClasses filtset 5).card) :
    aclMaxCell < (phase1Need filtset 2).1 :=
  Nat.lt_of_lt_of_le hmany (Nat.mul_le_mul hsp hdp)

/-- Rules with small address tables and a large port table are refused. -/
theorem runTables_error_of_ports {filtset : Filtset}
    (hsip : (phase1Need filtset 0).1 ≤ aclMaxCell ∧
      (phase1Need filtset 0).2 ≤ mppMaxFilters)
    (hdip : (phase1Need filtset 1).1 ≤ aclMaxCell ∧
      (phase1Need filtset 1).2 ≤ mppMaxFilters)
    (hports : aclMaxCell < (phase1Need filtset 2).1) :
    runTables (tableNeeds filtset) = some .error := by
  by_contra hne
  have hcells := (runTables_ne_error_iff _).mp hne
    [phase1Need filtset 0, phase1Need filtset 1] (phase1Need filtset 2) _ rfl
    (by
      simp only [List.forall_mem_cons]
      exact ⟨hsip, hdip, by simp⟩)
  omega

/-- A thousand rules with one source and one destination port each. -/
def pairedArgs (t : Fin 1000) : RuleArgs :=
  portArgs (t + 1) (t + 1) (by omega) (by omega)

theorem paired_le : 1000 ≤ aclMax := by decide

/-- The rules above, set with the tags 1 to 1000. -/
def pairedRules : Filtset := runStore (installed paired_le pairedArgs)

theorem pairedRules_numFilters : pairedRules.numFilters = 1000 := by
  rw [pairedRules, runStore_installed_numFilters]

theorem pairedRules_named {v : Nat} (hpos : 0 < v) (hle : v ≤ 1000) :
    ∃ i < 1000, (pairedRules.filtArr i).state = aclEnable ∧
      (pairedRules.filtArr i).dim 4 = (v, v) ∧
      (pairedRules.filtArr i).dim 5 = (v, v) := by
  rw [pairedRules]
  obtain ⟨i, hi, hstate, _, hdim⟩ :=
    runStore_installed_slot paired_le pairedArgs ⟨v - 1, by omega⟩
  refine ⟨i, hi, hstate, ?_⟩
  have hport : aclReadPort (v - 1 + 1) = (v, v) := by
    rw [Nat.sub_add_cancel hpos, aclReadPort, if_pos (by omega)]
  rw [hdim]
  exact ⟨hport, hport⟩

/-- Without addresses in the rules the tables of the addresses stay small. -/
theorem pairedRules_addresses (com : Fin 7) (hcom : com < 4) :
    (componentClasses pairedRules com).card ≤ 2 := by
  have hinstalled : pairedRules.Installed := by
    rw [pairedRules]
    exact (runStore_stores _).installed
  have hwild : ∀ t, (pairedArgs t).dim com = (0, 65535) := by
    intro t
    fin_cases com
    · exact congrArg Prod.fst aclReadiprange_zero
    · exact congrArg Prod.snd aclReadiprange_zero
    · exact congrArg Prod.fst aclReadiprange_zero
    · exact congrArg Prod.snd aclReadiprange_zero
    all_goals exact absurd hcom (by decide)
  have hexact : exactRules pairedRules com = ∅ := by
    apply Finset.eq_empty_of_forall_notMem
    intro i hmem
    rw [exactRules, Finset.mem_filter, Finset.mem_range,
      pairedRules_numFilters] at hmem
    obtain ⟨t, hfilt⟩ := runStore_installed_filtArr paired_le pairedArgs hmem.1
    have hdim : (pairedRules.filtArr i).dim com = (0, 65535) := by
      rw [pairedRules, hfilt]
      exact hwild t
    rw [hdim] at hmem
    exact absurd hmem.2 (by decide)
  have hcard := card_componentClasses_le hinstalled com
  rwa [hexact, Finset.card_empty, Nat.zero_add] at hcard

/-- A thousand port values on either side need more than a million cells. -/
theorem runTables_pairedRules :
    runTables (tableNeeds pairedRules) = some .error := by
  have hsmall : ∀ com : Fin 3, com ≠ 2 →
      (phase1Need pairedRules com).1 ≤ aclMaxCell ∧
        (phase1Need pairedRules com).2 ≤ mppMaxFilters := by
    intro com hcom
    have hleft := pairedRules_addresses (phase1Inputs com).1
      (by fin_cases com <;> first | decide | exact absurd rfl hcom)
    have hright := pairedRules_addresses (phase1Inputs com).2
      (by fin_cases com <;> first | decide | exact absurd rfl hcom)
    obtain ⟨hcells, hclasses⟩ := phase1Need_le hleft hright
    exact ⟨hcells.trans (by decide), hclasses.trans (by decide)⟩
  have hlarge : aclMaxCell < (phase1Need pairedRules 2).1 := by
    have hm : 1000 < phase0Cells := by
      rw [phase0Cells]
      omega
    have hsp : 1001 ≤ (componentClasses pairedRules 4).card := by
      refine le_card_componentClasses hm fun v hpos hle => ?_
      obtain ⟨i, hi, hstate, hdim, _⟩ := pairedRules_named hpos hle
      exact ⟨i, by rwa [pairedRules_numFilters], hstate, hdim⟩
    have hdp : 1001 ≤ (componentClasses pairedRules 5).card := by
      refine le_card_componentClasses hm fun v hpos hle => ?_
      obtain ⟨i, hi, hstate, _, hdim⟩ := pairedRules_named hpos hle
      exact ⟨i, by rwa [pairedRules_numFilters], hstate, hdim⟩
    exact lt_phase1Need_ports (by decide) hsp hdp
  exact runTables_error_of_ports (hsmall 0 (by decide)) (hsmall 1 (by decide))
    hlarge

/-- A thousand rules after an empty build: the rebuild fails and has changed
the sync flags. -/
theorem pairedRules_not_keepsClassifier :
    ¬ ∀ (calls : List AclCall) (before built : MppAclFiltset)
      (ops : List StoreOp) (final : MppAclFiltset),
      runCalls calls = some before →
      preAclLookupByTuple before = some (.ok, built) →
      preAclLookupByTuple (built.change ops) = some (.error, final) →
      KeepsClassifier (built.change ops) final := by
  intro hclaim
  obtain ⟨built, hbuild⟩ := preAclLookupByTuple_empty
  have hreach : runCalls [] = some (.ofFiltset emptyFiltset) := rfl
  have hrules : (built.change (installed paired_le pairedArgs)).filtset =
      pairedRules :=
    preAclLookupByTuple_empty_change hbuild _
  have houtcome := change_outcome hreach hbuild (installed paired_le pairedArgs)
  rw [hrules, runTables_pairedRules] at houtcome
  obtain ⟨⟨ret, final⟩, hpre, rfl⟩ := Option.map_eq_some_iff.mp houtcome
  exact not_keepsClassifier_of_error hreach hbuild hpre
    (hclaim _ _ _ _ _ hreach hbuild hpre)

end Barley
