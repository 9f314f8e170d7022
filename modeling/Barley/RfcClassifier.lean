/-
The four phases of a build, one after the other.  Each phase is told apart by
its outcome, by the tables it leaves alone and by what its own tables stand
for once it has succeeded.
-/
import Barley.RfcPhases
import Mathlib.Data.Finset.Max

namespace Barley

attribute [local instance] neZero_dims neZero_phase1 neZero_phase2

namespace Build

variable {S : Type}

theorem andThen_eq_some_ok {result : Build S} {next : S → Build S}
    {final : S} :
    result.andThen next = some (.ok, final) ↔
      ∃ state, result = some (.ok, state) ∧
        next state = some (.ok, final) := by
  rcases result with _ | ⟨ret, state⟩
  · simp [andThen]
  · cases ret <;> simp [andThen]

/-- A property of the state that every step keeps survives the early return
as well. -/
theorem andThen_preserves {P : S → Prop} {result : Build S}
    {next : S → Build S} {ret : AclRet} {final : S}
    (h : result.andThen next = some (ret, final))
    (hresult : ∀ ret state, result = some (ret, state) → P state)
    (hnext : ∀ state, P state → ∀ ret final,
      next state = some (ret, final) → P final) : P final := by
  rcases result with _ | ⟨first, state⟩
  · simp [andThen] at h
  · cases first with
    | ok => exact hnext state (hresult _ _ rfl) ret final h
    | error =>
        simp only [andThen, Option.some.injEq, Prod.mk.injEq] at h
        exact h.2 ▸ hresult _ _ rfl

end Build

/-- The outcome of a run of tables, each given by the cells and classes it
needs: the first table that is too large ends the run with an error, the first
one with too many classes leaves its class list. -/
def runTables : List (Nat × Nat) → Option AclRet
  | [] => some .ok
  | (cells, classes) :: rest =>
      match tableOutcome cells classes with
      | some .ok => runTables rest
      | other => other

theorem runTables_append (first second : List (Nat × Nat)) :
    runTables (first ++ second) =
      match runTables first with
      | some .ok => runTables second
      | other => other := by
  induction first with
  | nil => rfl
  | cons need rest ih =>
      simp only [List.cons_append, runTables]
      rcases tableOutcome need.1 need.2 with _ | ret
      · rfl
      · cases ret with
        | ok => exact ih
        | error => rfl

/-- Two runs of tables in sequence, where the second one may rely on what the
first one built. -/
theorem andThen_runTables {S : Type} {result : Build S} {next : S → Build S}
    {first second : List (Nat × Nat)}
    (hresult : result.map Prod.fst = runTables first)
    (hnext : ∀ state, result = some (.ok, state) →
      (next state).map Prod.fst = runTables second) :
    (result.andThen next).map Prod.fst = runTables (first ++ second) := by
  rw [runTables_append, ← hresult]
  rcases result with _ | ⟨ret, state⟩
  · rfl
  · cases ret with
    | ok => simpa [Build.andThen] using hnext state rfl
    | error => rfl

theorem runTables_singleton (need : Nat × Nat) :
    runTables [need] = tableOutcome need.1 need.2 := by
  simp only [runTables]
  rcases tableOutcome need.1 need.2 with _ | ret
  · rfl
  · cases ret <;> rfl

/-- No class list is left exactly when every table that is reached and small
enough has few classes. -/
theorem runTables_cons_ne_none (cells classes : Nat)
    (rest : List (Nat × Nat)) :
    runTables ((cells, classes) :: rest) ≠ none ↔
      (cells ≤ aclMaxCell →
        classes ≤ mppMaxFilters ∧ runTables rest ≠ none) := by
  simp only [runTables, tableOutcome]
  by_cases hcells : aclMaxCell < cells
  · simp [hcells, Nat.not_le.mpr hcells]
  · by_cases hclasses : classes ≤ mppMaxFilters
    · simp [hcells, hclasses, Nat.not_lt.mp hcells]
    · simp [hcells, hclasses, Nat.not_lt.mp hcells]

/-- A run returns an error exactly when a table that is reached has too many
cells. -/
theorem runTables_ne_error_iff (needs : List (Nat × Nat)) :
    runTables needs ≠ some .error ↔
      ∀ earlier need later, needs = earlier ++ need :: later →
        (∀ other ∈ earlier,
          other.1 ≤ aclMaxCell ∧ other.2 ≤ mppMaxFilters) →
        need.1 ≤ aclMaxCell := by
  induction needs with
  | nil => simp [runTables]
  | cons first rest ih =>
      have hsplit : (∀ earlier need later,
          first :: rest = earlier ++ need :: later →
          (∀ other ∈ earlier,
            other.1 ≤ aclMaxCell ∧ other.2 ≤ mppMaxFilters) →
          need.1 ≤ aclMaxCell) ↔
          first.1 ≤ aclMaxCell ∧ (first.2 ≤ mppMaxFilters →
            runTables rest ≠ some .error) := by
        rw [ih]
        constructor
        · intro h
          have hfirst := h [] first rest rfl (by simp)
          refine ⟨hfirst, fun hclasses earlier need later heq hfits => ?_⟩
          refine h (first :: earlier) need later (by rw [heq]; rfl) ?_
          rw [List.forall_mem_cons]
          exact ⟨⟨hfirst, hclasses⟩, hfits⟩
        · rintro ⟨hfirst, hrest⟩ earlier need later heq hfits
          cases earlier with
          | nil =>
              rw [List.nil_append, List.cons.injEq] at heq
              exact heq.1 ▸ hfirst
          | cons head tail =>
              rw [List.cons_append, List.cons.injEq] at heq
              rw [List.forall_mem_cons, ← heq.1] at hfits
              exact hrest hfits.1.2 tail need later heq.2 hfits.2
      rw [hsplit]
      simp only [runTables, tableOutcome]
      by_cases hcells : aclMaxCell < first.1
      · simp [hcells, Nat.not_le.mpr hcells]
      · by_cases hclasses : first.2 ≤ mppMaxFilters
        · simp [hcells, hclasses, Nat.not_lt.mp hcells]
        · simp [hcells, hclasses, Nat.not_lt.mp hcells]

/-- A run that succeeds has met only tables that fit. -/
theorem runTables_ok_iff (needs : List (Nat × Nat)) :
    runTables needs = some .ok ↔
      ∀ need ∈ needs, need.1 ≤ aclMaxCell ∧ need.2 ≤ mppMaxFilters := by
  induction needs with
  | nil => simp [runTables]
  | cons need rest ih =>
      rw [List.forall_mem_cons, ← ih]
      simp only [runTables, tableOutcome]
      by_cases hcells : aclMaxCell < need.1
      · simp [hcells, Nat.not_le.mpr hcells]
      · by_cases hclasses : need.2 ≤ mppMaxFilters
        · simp [hcells, hclasses, Nat.not_lt.mp hcells]
        · simp [hcells, hclasses]

/-- The rule sets of table `com` of phase 1. -/
def phase1Classes (filtset : Filtset) (com : Fin 3) : Finset (Finset Nat) :=
  meetClasses (componentClasses filtset (phase1Inputs com).1)
    (componentClasses filtset (phase1Inputs com).2)

theorem mem_phase1Classes {filtset : Filtset} {com : Fin 3}
    {rules : Finset Nat} :
    rules ∈ phase1Classes filtset com ↔
      ∃ m < phase0Cells, ∃ n < phase0Cells,
        coveredRules filtset (phase1Inputs com).1 m ∩
          coveredRules filtset (phase1Inputs com).2 n = rules := by
  simp only [phase1Classes, mem_meetClasses, mem_componentClasses]
  constructor
  · rintro ⟨_, ⟨m, hm, rfl⟩, _, ⟨n, hn, rfl⟩, rfl⟩
    exact ⟨m, hm, n, hn, rfl⟩
  · rintro ⟨m, hm, n, hn, rfl⟩
    exact ⟨_, ⟨m, hm, rfl⟩, _, ⟨n, hn, rfl⟩, rfl⟩

/-- The two class lists that table `com` of phase 2 combines. -/
def phase2Parts (filtset : Filtset) :
    Fin 2 → Finset (Finset Nat) × Finset (Finset Nat)
  | 0 => (phase1Classes filtset 0, phase1Classes filtset 1)
  | 1 => (phase1Classes filtset 2, componentClasses filtset 6)

/-- The rule sets of table `com` of phase 2. -/
def phase2Classes (filtset : Filtset) (com : Fin 2) : Finset (Finset Nat) :=
  meetClasses (phase2Parts filtset com).1 (phase2Parts filtset com).2

/-- The cells and classes that table `com` of phase 1 needs. -/
def phase1Need (filtset : Filtset) (com : Fin 3) : Nat × Nat :=
  ((componentClasses filtset (phase1Inputs com).1).card *
      (componentClasses filtset (phase1Inputs com).2).card,
    (phase1Classes filtset com).card)

/-- The cells and classes that table `com` of phase 2 needs. -/
def phase2Need (filtset : Filtset) (com : Fin 2) : Nat × Nat :=
  ((phase2Parts filtset com).1.card * (phase2Parts filtset com).2.card,
    (phase2Classes filtset com).card)

/-- What the last table needs: it holds tags and lists no classes. -/
def phase3Need (filtset : Filtset) : Nat × Nat :=
  ((phase2Classes filtset 0).card * (phase2Classes filtset 1).card, 0)

/-- The needs of the six cross-product tables in the order in which they are
built. -/
def tableNeeds (filtset : Filtset) : List (Nat × Nat) :=
  [phase1Need filtset 0, phase1Need filtset 1, phase1Need filtset 2,
    phase2Need filtset 0, phase2Need filtset 1, phase3Need filtset]

@[simp] theorem setFiltSync_numFilters (filtset : Filtset) :
    (setFiltSync filtset).numFilters = filtset.numFilters := rfl

@[simp] theorem setFiltSync_cost (filtset : Filtset) (i : Nat) :
    ((setFiltSync filtset).filtArr i).cost = (filtset.filtArr i).cost := by
  simp only [setFiltSync]
  split
  · split <;> rfl
  · rfl

theorem setPhase0Turn_frame {acl next : MppAclFiltset} {com : Fin 7}
    (h : setPhase0Turn acl com = some next) :
    next.filtset = acl.filtset ∧
      ∀ other ≠ com, next.phase0Nodes other = acl.phase0Nodes other := by
  obtain ⟨node, _, rfl⟩ := Option.map_eq_some_iff.mp h
  exact ⟨rfl, fun other hne => Function.update_of_ne hne _ _⟩

theorem foldlM_setPhase0Turn_filtset {coms : List (Fin 7)}
    {acl final : MppAclFiltset}
    (h : coms.foldlM setPhase0Turn acl = some final) :
    final.filtset = acl.filtset := by
  induction coms generalizing acl with
  | nil =>
      simp only [List.foldlM_nil, Option.pure_def, Option.some.injEq] at h
      rw [h]
  | cons com rest ih =>
      obtain ⟨next, hstep, htail⟩ := Option.bind_eq_some_iff.mp h
      rw [ih htail, (setPhase0Turn_frame hstep).1]

/-- The first phase leaves the filters with their new sync flags. -/
theorem setPhase0Cell_filtset {acl final : MppAclFiltset} {ret : AclRet}
    (h : setPhase0Cell acl = some (ret, final)) :
    final.filtset = setFiltSync acl.filtset := by
  obtain ⟨swept, hrun, heq⟩ := Option.map_eq_some_iff.mp h
  rw [Prod.mk.injEq] at heq
  rw [← heq.2, ← foldlM_setPhase0Turn_filtset hrun]

/-- All tables of phase 0 stand for these rules. -/
def MppAclFiltset.Phase0Built (acl : MppAclFiltset) (filtset : Filtset) :
    Prop :=
  ∀ com, (acl.phase0Nodes com).Built filtset com

section Sweep

variable {filtset : Filtset} (hnum : filtset.numFilters ≤ mppMaxFilters)
  (hranges : filtset.RangesOk)

include hnum hranges

theorem foldlM_setPhase0Turn_isSome_iff (coms : List (Fin 7))
    (acl : MppAclFiltset) (hacl : acl.filtset = filtset) :
    (coms.foldlM setPhase0Turn acl).isSome ↔
      ∀ com ∈ coms, (componentClasses filtset com).card ≤ mppMaxFilters := by
  induction coms generalizing acl with
  | nil => simp
  | cons com rest ih =>
      have hnode := setPhase0Node_isSome_iff hnum hranges com
        (acl.phase0Nodes com)
      have hturn : (setPhase0Turn acl com).isSome ↔
          (componentClasses filtset com).card ≤ mppMaxFilters := by
        rw [← hnode, setPhase0Turn, hacl, Option.isSome_map]
      rw [List.foldlM_cons, List.forall_mem_cons, ← hturn]
      cases hstep : setPhase0Turn acl com with
      | none => simp
      | some next =>
          have hnext := (setPhase0Turn_frame hstep).1.trans hacl
          simpa using ih next hnext

/-- A completed sweep has built the listed tables. -/
theorem foldlM_setPhase0Turn_built {coms : List (Fin 7)}
    {acl final : MppAclFiltset} (hacl : acl.filtset = filtset)
    (h : coms.foldlM setPhase0Turn acl = some final) :
    (∀ com ∈ coms, (final.phase0Nodes com).Built filtset com) ∧
      ∀ com ∉ coms, final.phase0Nodes com = acl.phase0Nodes com := by
  induction coms generalizing acl with
  | nil =>
      simp only [List.foldlM_nil, Option.pure_def, Option.some.injEq] at h
      simp [h]
  | cons com rest ih =>
      obtain ⟨next, hstep, htail⟩ := Option.bind_eq_some_iff.mp h
      obtain ⟨hfiltset, hothers⟩ := setPhase0Turn_frame hstep
      obtain ⟨hdone, hkept⟩ := ih (hfiltset.trans hacl) htail
      constructor
      · intro other hother
        by_cases hmem : other ∈ rest
        · exact hdone other hmem
        · have heq : other = com := by simpa [hmem] using hother
          subst heq
          obtain ⟨node, hnode, hnext⟩ := Option.map_eq_some_iff.mp hstep
          rw [hacl] at hnode
          rw [hkept other hmem, ← hnext]
          simpa using setPhase0Node_built hnum hranges hnode
      · intro other hother
        rw [List.mem_cons, not_or] at hother
        rw [hkept other hother.2, hothers other hother.1]

/-- The first phase never returns an error; it completes when the class lists
have room. -/
theorem setPhase0Cell_outcome (acl : MppAclFiltset)
    (hacl : acl.filtset = filtset) :
    (setPhase0Cell acl).map Prod.fst =
      if ∀ com, (componentClasses filtset com).card ≤ mppMaxFilters then
        some .ok
      else none := by
  have hsome := foldlM_setPhase0Turn_isSome_iff hnum hranges
    (List.finRange 7) acl hacl
  simp only [List.mem_finRange, forall_const] at hsome
  rw [setPhase0Cell, Option.map_map]
  cases hrun : (List.finRange 7).foldlM setPhase0Turn acl with
  | none =>
      rw [hrun] at hsome
      rw [if_neg (fun h => by simpa using hsome.mpr h)]
      rfl
  | some swept =>
      rw [hrun] at hsome
      rw [if_pos (hsome.mp rfl)]
      rfl

theorem setPhase0Cell_built {acl final : MppAclFiltset} {ret : AclRet}
    (hacl : acl.filtset = filtset)
    (h : setPhase0Cell acl = some (ret, final)) :
    final.Phase0Built filtset := by
  obtain ⟨swept, hrun, heq⟩ := Option.map_eq_some_iff.mp h
  rw [Prod.mk.injEq] at heq
  intro com
  rw [← heq.2]
  exact (foldlM_setPhase0Turn_built hnum hranges hacl hrun).1 com (by simp)

end Sweep

/-- What table `com` of phase 1 has to satisfy. -/
structure MppAclFiltset.Phase1Built (acl : MppAclFiltset) (filtset : Filtset)
    (com : Fin 3) : Prop where
  lists : (acl.phase1Nodes com).listEqs.Lists (phase1Classes filtset com)
  crosses : (acl.phase1Nodes com).Crosses
    (acl.phase0Nodes (phase1Inputs com).1).listEqs
    (acl.phase0Nodes (phase1Inputs com).2).listEqs

/-- What table `com` of phase 2 has to satisfy. -/
structure MppAclFiltset.Phase2Built (acl : MppAclFiltset) (filtset : Filtset)
    (com : Fin 2) : Prop where
  lists : (acl.phase2Nodes com).listEqs.Lists (phase2Classes filtset com)
  crosses : (acl.phase2Nodes com).Crosses (phase2Inputs acl com).1
    (phase2Inputs acl com).2

/-- The rules and the tables of phase 0 are the same. -/
structure MppAclFiltset.Agree0 (acl final : MppAclFiltset) : Prop where
  filtset : final.filtset = acl.filtset
  phase0 : final.phase0Nodes = acl.phase0Nodes

/-- The rules and the tables of the phases 0 and 1 are the same. -/
structure MppAclFiltset.Agree1 (acl final : MppAclFiltset) : Prop
    extends acl.Agree0 final where
  phase1 : final.phase1Nodes = acl.phase1Nodes

section Tables

variable {filtset : Filtset} {acl final : MppAclFiltset} {ret : AclRet}

theorem MppAclFiltset.Agree0.phase0Built (h : acl.Agree0 final)
    (hphase0 : acl.Phase0Built filtset) : final.Phase0Built filtset := by
  intro com
  rw [h.phase0]
  exact hphase0 com

theorem MppAclFiltset.Phase1Built.of_agree0 {com : Fin 3}
    (hbuilt : acl.Phase1Built filtset com) (h : acl.Agree0 final)
    (hnode : final.phase1Nodes com = acl.phase1Nodes com) :
    final.Phase1Built filtset com := by
  constructor
  · rw [hnode]
    exact hbuilt.lists
  · rw [hnode, h.phase0]
    exact hbuilt.crosses

theorem MppAclFiltset.Phase2Built.of_agree1 {com : Fin 2}
    (hbuilt : acl.Phase2Built filtset com) (h : acl.Agree1 final)
    (hnode : final.phase2Nodes com = acl.phase2Nodes com) :
    final.Phase2Built filtset com := by
  have hinputs : phase2Inputs final com = phase2Inputs acl com := by
    fin_cases com <;> simp [phase2Inputs, h.phase0, h.phase1]
  constructor
  · rw [hnode]
    exact hbuilt.lists
  · rw [hnode, hinputs]
    exact hbuilt.crosses

theorem setPhase1Node_outcome (hphase0 : acl.Phase0Built filtset)
    (com : Fin 3) :
    (setPhase1Node com acl).map Prod.fst =
      runTables [phase1Need filtset com] := by
  have hcross := crossNode_outcome (hphase0 (phase1Inputs com).1).lists
    (hphase0 (phase1Inputs com).2).lists (acl.phase1Nodes com)
  rw [setPhase1Node, Option.map_map, runTables_singleton, phase1Need,
    phase1Classes, ← hcross]
  rfl

/-- A turn of the loop of phase 1 replaces one table only. -/
theorem setPhase1Node_frame {com : Fin 3}
    (h : setPhase1Node com acl = some (ret, final)) :
    acl.Agree0 final ∧
      ∀ other ≠ com, final.phase1Nodes other = acl.phase1Nodes other := by
  simp only [setPhase1Node, Option.map_eq_some_iff, Prod.mk.injEq] at h
  obtain ⟨done, _, _, rfl⟩ := h
  exact ⟨⟨rfl, rfl⟩, fun other hne => Function.update_of_ne hne _ _⟩

theorem setPhase1Node_built (hphase0 : acl.Phase0Built filtset) {com : Fin 3}
    (h : setPhase1Node com acl = some (.ok, final)) :
    final.Phase1Built filtset com := by
  simp only [setPhase1Node, Option.map_eq_some_iff, Prod.mk.injEq,
    Prod.exists] at h
  obtain ⟨_, node, hcross, rfl, rfl⟩ := h
  obtain ⟨hlists, hcrosses⟩ :=
    crossNode_built (hphase0 _).lists (hphase0 _).lists hcross
  constructor
  · simpa [phase1Classes] using hlists
  · simpa using hcrosses

/-- The loop of phase 1 replaces its tables only. -/
theorem setPhase1Cell_frame (h : setPhase1Cell acl = some (ret, final)) :
    acl.Agree0 final := by
  have hnode : ∀ (com : Fin 3) (state : MppAclFiltset), acl.Agree0 state →
      ∀ ret final, setPhase1Node com state = some (ret, final) →
      acl.Agree0 final := by
    intro com state hstate ret final hstep
    obtain ⟨hframe, _⟩ := setPhase1Node_frame hstep
    exact ⟨hframe.filtset.trans hstate.filtset,
      hframe.phase0.trans hstate.phase0⟩
  refine Build.andThen_preserves (P := acl.Agree0) h (fun ret state hpair => ?_)
    (hnode 2)
  exact Build.andThen_preserves (P := acl.Agree0) hpair
    (hnode 0 acl ⟨rfl, rfl⟩) (hnode 1)

/-- Phase 1 succeeds, fails or leaves a class list as its tables do, one after
the other. -/
theorem setPhase1Cell_outcome (hphase0 : acl.Phase0Built filtset) :
    (setPhase1Cell acl).map Prod.fst =
      runTables [phase1Need filtset 0, phase1Need filtset 1,
        phase1Need filtset 2] := by
  have hpair : ((setPhase1Node 0 acl).andThen (setPhase1Node 1)).map Prod.fst =
      runTables ([phase1Need filtset 0] ++ [phase1Need filtset 1]) := by
    refine andThen_runTables (setPhase1Node_outcome hphase0 0) ?_
    intro state h
    have hframe := (setPhase1Node_frame h).1
    exact setPhase1Node_outcome (hframe.phase0Built hphase0) 1
  have hthree : ∀ state, (setPhase1Node 0 acl).andThen (setPhase1Node 1) =
      some (.ok, state) → (setPhase1Node 2 state).map Prod.fst =
        runTables [phase1Need filtset 2] := by
    intro state h
    obtain ⟨mid, hmid, hlast⟩ := Build.andThen_eq_some_ok.mp h
    have hphase0mid := (setPhase1Node_frame hmid).1.phase0Built hphase0
    have hframe := (setPhase1Node_frame hlast).1
    exact setPhase1Node_outcome (hframe.phase0Built hphase0mid) 2
  simpa only [setPhase1Cell, List.cons_append, List.nil_append] using
    andThen_runTables hpair hthree

theorem setPhase1Cell_built (hphase0 : acl.Phase0Built filtset)
    (h : setPhase1Cell acl = some (.ok, final)) (com : Fin 3) :
    final.Phase1Built filtset com := by
  obtain ⟨second, hpair, hlast⟩ := Build.andThen_eq_some_ok.mp h
  obtain ⟨first, hfirst, hsecond⟩ := Build.andThen_eq_some_ok.mp hpair
  have hphase01 := (setPhase1Node_frame hfirst).1.phase0Built hphase0
  have hphase02 := (setPhase1Node_frame hsecond).1.phase0Built hphase01
  obtain ⟨hframe2, hkept2⟩ := setPhase1Node_frame hsecond
  obtain ⟨hframe3, hkept3⟩ := setPhase1Node_frame hlast
  fin_cases com
  · have hbuilt := (setPhase1Node_built hphase0 hfirst).of_agree0 hframe2
      (hkept2 0 (by decide))
    exact hbuilt.of_agree0 hframe3 (hkept3 0 (by decide))
  · exact (setPhase1Node_built hphase01 hsecond).of_agree0 hframe3
      (hkept3 1 (by decide))
  · exact setPhase1Node_built hphase02 hlast

theorem phase2Inputs_lists (hphase0 : acl.Phase0Built filtset)
    (hphase1 : ∀ com, acl.Phase1Built filtset com) (com : Fin 2) :
    (phase2Inputs acl com).1.Lists (phase2Parts filtset com).1 ∧
      (phase2Inputs acl com).2.Lists (phase2Parts filtset com).2 := by
  fin_cases com
  · exact ⟨(hphase1 0).lists, (hphase1 1).lists⟩
  · exact ⟨(hphase1 2).lists, (hphase0 6).lists⟩

@[simp] theorem phase2Inputs_phase2Nodes (acl : MppAclFiltset)
    (nodes : Fin 2 → Pnoder) (com : Fin 2) :
    phase2Inputs { acl with phase2Nodes := nodes } com =
      phase2Inputs acl com := by
  fin_cases com <;> rfl

theorem setPhase2Node_outcome (hphase0 : acl.Phase0Built filtset)
    (hphase1 : ∀ com, acl.Phase1Built filtset com) (com : Fin 2) :
    (setPhase2Node com acl).map Prod.fst =
      runTables [phase2Need filtset com] := by
  obtain ⟨hleft, hright⟩ := phase2Inputs_lists hphase0 hphase1 com
  have hcross := crossNode_outcome hleft hright (acl.phase2Nodes com)
  rw [setPhase2Node, Option.map_map, runTables_singleton, phase2Need,
    phase2Classes, ← hcross]
  rfl

/-- A turn of the loop of phase 2 replaces one table only. -/
theorem setPhase2Node_frame {com : Fin 2}
    (h : setPhase2Node com acl = some (ret, final)) :
    acl.Agree1 final ∧
      ∀ other ≠ com, final.phase2Nodes other = acl.phase2Nodes other := by
  simp only [setPhase2Node, Option.map_eq_some_iff, Prod.mk.injEq] at h
  obtain ⟨done, _, _, rfl⟩ := h
  exact ⟨⟨⟨rfl, rfl⟩, rfl⟩, fun other hne => Function.update_of_ne hne _ _⟩

theorem setPhase2Node_built (hphase0 : acl.Phase0Built filtset)
    (hphase1 : ∀ com, acl.Phase1Built filtset com) {com : Fin 2}
    (h : setPhase2Node com acl = some (.ok, final)) :
    final.Phase2Built filtset com := by
  simp only [setPhase2Node, Option.map_eq_some_iff, Prod.mk.injEq,
    Prod.exists] at h
  obtain ⟨_, node, hcross, rfl, rfl⟩ := h
  obtain ⟨hleft, hright⟩ := phase2Inputs_lists hphase0 hphase1 com
  obtain ⟨hlists, hcrosses⟩ := crossNode_built hleft hright hcross
  constructor
  · simpa [phase2Classes] using hlists
  · simpa using hcrosses

theorem setPhase2Cell_frame (h : setPhase2Cell acl = some (ret, final)) :
    acl.Agree1 final := by
  refine Build.andThen_preserves (P := acl.Agree1) h
    (fun ret state hfirst => (setPhase2Node_frame hfirst).1) ?_
  intro state hstate ret final hlast
  obtain ⟨hframe, _⟩ := setPhase2Node_frame hlast
  exact ⟨⟨hframe.filtset.trans hstate.filtset,
    hframe.phase0.trans hstate.phase0⟩, hframe.phase1.trans hstate.phase1⟩

theorem setPhase2Cell_outcome (hphase0 : acl.Phase0Built filtset)
    (hphase1 : ∀ com, acl.Phase1Built filtset com) :
    (setPhase2Cell acl).map Prod.fst =
      runTables [phase2Need filtset 0, phase2Need filtset 1] := by
  have hlast : ∀ state, setPhase2Node 0 acl = some (.ok, state) →
      (setPhase2Node 1 state).map Prod.fst =
        runTables [phase2Need filtset 1] := by
    intro state h
    have hframe := (setPhase2Node_frame h).1
    exact setPhase2Node_outcome (hframe.toAgree0.phase0Built hphase0)
      (fun com => (hphase1 com).of_agree0 hframe.toAgree0
        (congrFun hframe.phase1 com)) 1
  simpa only [setPhase2Cell, List.cons_append, List.nil_append] using
    andThen_runTables (setPhase2Node_outcome hphase0 hphase1 0) hlast

theorem setPhase2Cell_built (hphase0 : acl.Phase0Built filtset)
    (hphase1 : ∀ com, acl.Phase1Built filtset com)
    (h : setPhase2Cell acl = some (.ok, final)) (com : Fin 2) :
    final.Phase2Built filtset com := by
  obtain ⟨first, hfirst, hlast⟩ := Build.andThen_eq_some_ok.mp h
  have hframe := (setPhase2Node_frame hfirst).1
  have hphase0' := hframe.toAgree0.phase0Built hphase0
  have hphase1' : ∀ com, first.Phase1Built filtset com := fun com =>
    (hphase1 com).of_agree0 hframe.toAgree0 (congrFun hframe.phase1 com)
  obtain ⟨hframe2, hkept2⟩ := setPhase2Node_frame hlast
  fin_cases com
  · exact (setPhase2Node_built hphase0 hphase1 hfirst).of_agree1 hframe2
      (hkept2 0 (by decide))
  · exact setPhase2Node_built hphase0' hphase1' hlast

end Tables

/-- The slot whose tag stands for a rule set: its lowest rule, or the last
slot of the filter array when it is empty. -/
def lowestRule (rules : Finset Nat) : Nat :=
  if h : rules.Nonempty then rules.min' h else mppMaxFilters - 1

theorem getRuleCost_eq_lowestRule (endBmp : Bmp) :
    getRuleCost endBmp = lowestRule (bmpRules endBmp) := by
  unfold lowestRule
  split
  · rename_i hne
    refine getRuleCost_of_lowest (Finset.min'_mem _ hne) ?_
    intro j hj hmem
    exact absurd (Finset.min'_le _ j hmem) (Nat.not_le.mpr hj)
  · rename_i hne
    exact getRuleCost_of_empty (Finset.not_nonempty_iff_eq_empty.mp hne)

/-- What the last table has to satisfy. -/
structure MppAclFiltset.Phase3Built (acl : MppAclFiltset) : Prop where
  ncells : acl.phase3Node.ncells =
    (acl.phase2Nodes 0).listEqs.nCES * (acl.phase2Nodes 1).listEqs.nCES
  cells : ∀ {i j : Nat} {left right : Finset Nat},
    (acl.phase2Nodes 0).listEqs.ClassOf i left →
    (acl.phase2Nodes 1).listEqs.ClassOf j right →
    acl.phase3Node.cell (i * (acl.phase2Nodes 1).listEqs.nCES + j) =
      aclGetTagidByRuleid acl.filtset (lowestRule (left ∩ right))

section LastTable

variable {filtset : Filtset} {acl final : MppAclFiltset} {ret : AclRet}

theorem setPhase3Cell_outcome
    (hphase2 : ∀ com, acl.Phase2Built filtset com) :
    (setPhase3Cell acl).map Prod.fst = runTables [phase3Need filtset] := by
  rw [runTables_singleton, phase3Need, ← (hphase2 0).lists.nCES_eq,
    ← (hphase2 1).lists.nCES_eq]
  simp only [setPhase3Cell, tableOutcome, Nat.zero_le, if_true]
  split
  · rfl
  · rfl

theorem setPhase3Cell_frame (h : setPhase3Cell acl = some (ret, final)) :
    acl.Agree1 final ∧ final.phase2Nodes = acl.phase2Nodes := by
  simp only [setPhase3Cell] at h
  split at h
  all_goals
    simp only [Option.some.injEq, Prod.mk.injEq] at h
    obtain ⟨_, rfl⟩ := h
    exact ⟨⟨⟨rfl, rfl⟩, rfl⟩, rfl⟩

theorem setPhase3Cell_built (h : setPhase3Cell acl = some (.ok, final)) :
    final.Phase3Built := by
  simp only [setPhase3Cell] at h
  split at h
  · simp at h
  · simp only [Option.some.injEq, Prod.mk.injEq, true_and] at h
    subst h
    refine ⟨rfl, ?_⟩
    intro i j left right hleft hright
    have hcell := intersectedBmps_getElem? hleft hright
    rw [List.getElem?_map, Option.map_eq_some_iff] at hcell
    obtain ⟨endBmp, hget, hrules⟩ := hcell
    simp only [storeCells, List.getElem?_map, hget, Option.map_some,
      Option.getD_some, getRuleCost_eq_lowestRule, hrules]

end LastTable

end Barley
