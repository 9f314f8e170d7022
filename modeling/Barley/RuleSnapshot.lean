/-
What the rule commands mean.  The store follows a table of rules, edit by edit;
packets are looked up in the rules that were in the table at the last build
that succeeded.
-/
import Barley.RuleCommands
import Barley.RuleCounters
import Barley.StatQueryLaw

namespace Barley

/-- The rules by tag. -/
abbrev RuleTable := Nat → Option RuleArgs

/-- The tags of a checked range. -/
def RuleRange.Covers (input : RuleRange) (tag : Nat) : Prop :=
  input.index.toNat ≤ tag ∧ tag < input.index.toNat + input.num.toNat

instance (input : RuleRange) : DecidablePred input.Covers := fun _ =>
  inferInstanceAs (Decidable (_ ∧ _))

/-- The table without the rules of a range. -/
def RuleTable.clear (rules : RuleTable) (input : RuleRange) : RuleTable :=
  fun tag => if input.Covers tag then none else rules tag

/-- The table after an event. -/
def RuleEvent.edit (rules : RuleTable) : RuleEvent → RuleTable
  | .add rule _ _ => Function.update rules rule.index.toNat (some rule.args)
  | .del input => rules.clear input
  | .clearAll input => rules.clear input
  | .enable _ | .update | .statClear _ | .packet _ => rules

/-- The table after events from an empty one. -/
def rulesAfter (events : List RuleEvent) : RuleTable :=
  events.foldl RuleEvent.edit fun _ => none

instance (args : RuleArgs) (tuple : AclTuple) :
    Decidable (args.Matches tuple) :=
  inferInstanceAs (Decidable (_ ∧ _))

/-- The lowest tag of a rule that is meant for the packet. -/
def RuleTable.lowest (rules : RuleTable) (tuple : AclTuple) : Option Nat :=
  (List.range (aclMax + 1)).find? fun tag =>
    (rules tag).any fun args => args.Matches tuple

/-- What should become of a packet under these rules. -/
def RuleTable.verdict (rules : RuleTable) (enabled : UInt8) (work : RuleWork) :
    RuleVerdict :=
  if enabled = 0 then .off
  else if work.Malformed then .malformed
  else match rules.lowest work.tuple.aclTuple with
    | some tag => .submitted work.packet (.ofNat tag)
    | none => .notMatched

/-- The store holds these rules, all of them enabled. -/
def Filtset.Has (filtset : Filtset) (rules : RuleTable) : Prop :=
  ∃ map, filtset.Stores map ∧ (∀ tag, (map tag).map RuleEntry.args = rules tag) ∧
    ∀ tag entry, map tag = some entry → entry.state = aclEnable

/-- The tables answer by these rules. -/
def MppAclFiltset.AnswersBy (acl : MppAclFiltset) (rules : RuleTable) : Prop :=
  ∀ tuple, aclLookupByTuple acl tuple = (rules.lowest tuple).getD 0

section Store

variable {filtset next : Filtset} {rules : RuleTable}

theorem emptyFiltset_has : emptyFiltset.Has fun _ => none :=
  ⟨fun _ => none, emptyFiltset_stores, fun _ => rfl, fun _ _ h => by cases h⟩

theorem Filtset.Has.set (h : filtset.Has rules) (args : RuleArgs) {tag : Nat}
    (hstart : aclIndexStart ≤ tag) (hmax : tag ≤ aclMax) :
    (aclSetfilter filtset tag args).Has
      (Function.update rules tag (some args)) := by
  obtain ⟨map, hstores, hargs, hstate⟩ := h
  refine ⟨_, (StoreOp.set tag args hstart hmax).apply_stores hstores, ?_, ?_⟩
  · intro other
    by_cases hother : other = tag
    · subst hother
      simp [StoreOp.applyMap]
    · simp [StoreOp.applyMap, hother, hargs]
  · intro other entry hentry
    by_cases hother : other = tag
    · subst hother
      rw [StoreOp.applyMap, Function.update_self, Option.some.injEq] at hentry
      subst hentry
      rfl
    · rw [StoreOp.applyMap, Function.update_of_ne hother] at hentry
      exact hstate other entry hentry

theorem Filtset.Has.delete (h : filtset.Has rules) (tag : Nat) :
    (aclDeleteOneFilterByTagid filtset tag).2.Has
      (Function.update rules tag none) := by
  obtain ⟨map, hstores, hargs, hstate⟩ := h
  refine ⟨_, (StoreOp.delete tag).apply_stores hstores, ?_, ?_⟩
  · intro other
    by_cases hother : other = tag
    · subst hother
      simp [StoreOp.applyMap]
    · simp [StoreOp.applyMap, hother, hargs]
  · intro other entry hentry
    by_cases hother : other = tag
    · subst hother
      simp [StoreOp.applyMap] at hentry
    · rw [StoreOp.applyMap, Function.update_of_ne hother] at hentry
      exact hstate other entry hentry

/-- A rule is deleted exactly when there is one. -/
theorem Filtset.Has.delete_success (h : filtset.Has rules) (tag : Nat) :
    (aclDeleteOneFilterByTagid filtset tag).1 = .success ↔
      (rules tag).isSome := by
  obtain ⟨map, hstores, hargs, _⟩ := h
  have hslot := hstores.slots tag
  rw [← hargs, Option.isSome_map]
  cases hentry : map tag with
  | none =>
      rw [hentry, Option.map_none] at hslot
      simp [aclDeleteOneFilterByTagid_of_absent hslot]
  | some entry =>
      rw [hentry, Option.map_some] at hslot
      simp [(aclDeleteOneFilterByTagid_of_present hstores.sorted hslot).1]

/-- Counters are no part of the rules. -/
theorem Filtset.Has.of_same (h : filtset.Has rules)
    (hnum : next.numFilters = filtset.numFilters)
    (harr : next.filtArr = filtset.filtArr) : next.Has rules := by
  obtain ⟨map, hstores, hrest⟩ := h
  refine ⟨map, ⟨?_, ?_, hstores.tags, ?_⟩, hrest⟩
  · rw [hnum, harr]
    exact hstores.sorted
  · intro tag
    rw [← hstores.slots, Filtset.slotOf, Filtset.slotOf, hnum, harr]
  · intro i hi hmax
    rw [hnum] at hi
    rw [harr]
    exact hstores.cleared i hi hmax

theorem Filtset.Has.setFiltSync (h : filtset.Has rules) :
    (Barley.setFiltSync filtset).Has rules := by
  obtain ⟨map, hstores, hargs, hstate⟩ := h
  refine ⟨_, hstores.setFiltSync_map, ?_, ?_⟩
  · intro tag
    rw [Option.map_map, ← hargs]
    rfl
  · intro tag entry hentry
    obtain ⟨old, hold, rfl⟩ := Option.map_eq_some_iff.mp hentry
    exact hstate tag old hold

/-- The rule in a slot. -/
theorem Filtset.Has.slot (h : filtset.Has rules) (tag : Nat) (tuple : AclTuple) :
    (filtset.slotOf tag).any (fun filt => decide (filt.Matches tuple)) =
      (rules tag).any fun args => decide (args.Matches tuple) := by
  obtain ⟨map, hstores, hargs, hstate⟩ := h
  rw [hstores.slots, ← hargs]
  cases hentry : map tag with
  | none => rfl
  | some entry =>
      have hiff : (entry.filter tag).Matches tuple ↔
          entry.args.Matches tuple := by
        rw [← entry.args.dim_contains tuple]
        exact and_iff_right (hstate tag entry hentry)
      exact decide_eq_decide.mpr hiff

/-- The first slot that matches has the lowest tag of the rules that do. -/
theorem Filtset.Has.firstMatch (h : filtset.Has rules) (tuple : AclTuple) :
    (Barley.firstMatch filtset tuple).map (fun i => (filtset.filtArr i).cost) =
      rules.lowest tuple := by
  have hslot := fun tag => h.slot tag tuple
  obtain ⟨map, hstores, _⟩ := h
  rw [RuleTable.lowest, Barley.firstMatch,
    SortedSlots.find?_key hstores.sorted
      fun filt => decide (filt.Matches tuple)]
  · simp only [← hslot]
    rfl
  · intro i hi
    have hlookup := (SortedSlots.lookup_eq_some_iff hstores.sorted).mpr
      ⟨i, hi, rfl, rfl⟩
    have hsome : (map (filtset.filtArr i).cost).isSome := by
      have hslots := hstores.slots (filtset.filtArr i).cost
      rw [Filtset.slotOf, hlookup] at hslots
      rw [← Option.isSome_map, ← hslots, Option.isSome_some]
    exact Nat.lt_succ_of_le (hstores.tags _ hsome).2

theorem RuleTable.lowest_le {tuple : AclTuple} {tag : Nat}
    (h : rules.lowest tuple = some tag) : tag ≤ aclMax :=
  Nat.le_of_lt_succ (List.mem_range.mp (List.find?_range_eq_some.mp h).2.1)

/-- Tag 0 is never given to a rule. -/
theorem Filtset.Has.lowest_pos (h : filtset.Has rules) {tuple : AclTuple}
    {tag : Nat} (hlowest : rules.lowest tuple = some tag) : 0 < tag := by
  obtain ⟨map, hstores, hargs, _⟩ := h
  obtain ⟨hany, _⟩ := List.find?_range_eq_some.mp hlowest
  obtain ⟨args, hsome, _⟩ := (Option.any_eq_true _ _).mp hany
  refine (hstores.tags tag ?_).1
  rw [← Option.isSome_map, hargs, hsome, Option.isSome_some]

end Store

section Steps

variable {st final : RuleState} {rules : RuleTable}

theorem RuleRange.count_eq (input : RuleRange) :
    input.count = input.num.toNat := by
  have hstop := input.stop_le
  rw [FrcOpIn.count_eq, if_pos]
  simp only [aclMax] at hstop
  omega

theorem RuleRange.tagid_eq (input : RuleRange) {i : Nat}
    (hi : i < input.count) : input.tagid i = input.index.toNat + i := by
  have hstop := input.stop_le
  rw [input.count_eq] at hi
  rw [FrcOpIn.tagid_eq, Nat.mod_eq_of_lt]
  simp only [aclMax] at hstop
  omega

/-- The table without the rules of a list of tags. -/
def RuleTable.without (rules : RuleTable) (tags : List Nat) : RuleTable :=
  fun tag => if tag ∈ tags then none else rules tag

/-- The rounds of a deletion take out the rules of their tags, and count those
that there were. -/
theorem ruleDelRounds {tags : List Nat} (hnodup : tags.Nodup)
    (acc : Fre × BitVec 16 × Filtset) (h : acc.2.2.Has rules) :
    (tags.foldl (fun acc tag => ruleDelRound tag acc) acc).2.2.Has
        (rules.without tags) ∧
      (tags.foldl (fun acc tag => ruleDelRound tag acc) acc).2.1 =
        acc.2.1 + .ofNat 16 (tags.countP fun tag => (rules tag).isSome) := by
  induction tags generalizing acc rules with
  | nil =>
      refine ⟨?_, (BitVec.add_zero acc.2.1).symm⟩
      have hsame : rules.without [] = rules := by
        funext tag
        exact if_neg List.not_mem_nil
      rw [hsame]
      exact h
  | cons tag rest ih =>
      obtain ⟨hnot, hrest⟩ := List.nodup_cons.mp hnodup
      have hsame : RuleTable.without (Function.update rules tag none) rest =
          rules.without (tag :: rest) := by
        funext other
        simp only [RuleTable.without, List.mem_cons]
        by_cases hother : other = tag
        · simp [hother]
        · simp [hother]
      have hcount : rest.countP
          (fun other => (Function.update rules tag none other).isSome) =
            rest.countP fun other => (rules other).isSome := by
        refine List.countP_congr fun other hmem => ?_
        have hne : other ≠ tag := fun heq => hnot (heq ▸ hmem)
        rw [Function.update_of_ne hne]
      have hround : (ruleDelRound tag acc).2.1 = acc.2.1 +
          .ofNat 16 (if (rules tag).isSome then 1 else 0) := by
        by_cases hsome : (rules tag).isSome
        · rw [if_pos hsome]
          exact if_pos ((h.delete_success tag).mpr hsome)
        · rw [if_neg hsome, BitVec.add_zero]
          exact if_neg (mt (h.delete_success tag).mp hsome)
      obtain ⟨hhas, hnum⟩ := ih hrest (ruleDelRound tag acc) (h.delete tag)
      rw [hsame] at hhas
      rw [hcount, hround, BitVec.add_assoc, ← BitVec.ofNat_add,
        Nat.add_comm] at hnum
      rw [List.countP_cons]
      exact ⟨hhas, hnum⟩

/-- The tags of a range, as the commands count through them. -/
def RuleRange.tags (input : RuleRange) : List Nat :=
  (List.range input.num.toNat).map (input.index.toNat + ·)

theorem RuleRange.mem_tags {input : RuleRange} {tag : Nat} :
    tag ∈ input.tags ↔ input.Covers tag := by
  simp only [RuleRange.tags, List.mem_map, List.mem_range, RuleRange.Covers]
  constructor
  · rintro ⟨i, hi, rfl⟩
    omega
  · intro h
    exact ⟨tag - input.index.toNat, by omega, by omega⟩

theorem RuleRange.nodup_tags (input : RuleRange) : input.tags.Nodup :=
  List.nodup_range.map fun _ _ => Nat.add_left_cancel

theorem RuleTable.without_tags (rules : RuleTable) (input : RuleRange) :
    rules.without input.tags = rules.clear input := by
  funext tag
  simp only [RuleTable.without, RuleTable.clear, RuleRange.mem_tags]

theorem RuleRange.map_tagid (input : RuleRange) :
    (List.range input.count).map input.tagid = input.tags := by
  rw [RuleRange.tags, ← input.count_eq]
  exact List.map_congr_left fun i hi => input.tagid_eq (List.mem_range.mp hi)

/-- The number of rules with tags in a range. -/
def RuleTable.countIn (rules : RuleTable) (input : RuleRange) : Nat :=
  input.tags.countP fun tag => (rules tag).isSome

/-- A range of tags is deleted, and the rules in it are counted. -/
theorem Filtset.Has.delLoop {filtset : Filtset} (h : filtset.Has rules)
    (input : RuleRange) :
    (ruleDelLoop filtset input.toFrcOpIn).2.2.Has (rules.clear input) ∧
      (ruleDelLoop filtset input.toFrcOpIn).2.1 =
        .ofNat 16 (rules.countIn input) := by
  have hloop : ruleDelLoop filtset input.toFrcOpIn =
      input.tags.foldl (fun acc tag => ruleDelRound tag acc)
        (.success, 0, filtset) := by
    rw [← input.map_tagid, List.foldl_map]
    rfl
  have hrounds := ruleDelRounds input.nodup_tags (.success, 0, filtset) h
  rw [rules.without_tags] at hrounds
  rw [hloop]
  exact ⟨hrounds.1, hrounds.2.trans (BitVec.zero_add _)⟩

/-- Counters are cleared, and the rules stay. -/
theorem statClearLoop {tags : List Nat} {filtset next : Filtset}
    (hloop : tags.foldlM aclInitfilterStatisticsByTagid filtset = some next) :
    next.numFilters = filtset.numFilters ∧ next.filtArr = filtset.filtArr ∧
      ∀ tag, next.counters tag =
        if tag ∈ tags then (0, 0) else filtset.counters tag := by
  induction tags generalizing filtset with
  | nil =>
      obtain rfl := Option.some.inj hloop
      exact ⟨rfl, rfl, fun tag => (if_neg List.not_mem_nil).symm⟩
  | cons first rest ih =>
      obtain ⟨mid, hmid, hrest⟩ := Option.bind_eq_some_iff.mp hloop
      obtain ⟨hnum, harr, hcounters⟩ := ih hrest
      rw [aclInitfilterStatisticsByTagid] at hmid
      split at hmid
      · obtain rfl := Option.some.inj hmid
        refine ⟨hnum, harr, fun tag => ?_⟩
        rw [hcounters]
        simp only [List.mem_cons, Filtset.counters]
        by_cases htag : tag = first
        · subst htag
          simp
        · simp [htag]
      · cases hmid

theorem RuleEvent.apply_statClear {input : RuleRange}
    (hstep : (RuleEvent.statClear input).apply st = some final) :
    final.acl.filtset.numFilters = st.acl.filtset.numFilters ∧
      final.acl.filtset.filtArr = st.acl.filtset.filtArr ∧
      (∀ tag, final.acl.filtset.counters tag =
        if input.Covers tag then (0, 0) else st.acl.filtset.counters tag) ∧
      final = st.withFiltset final.acl.filtset := by
  obtain ⟨⟨num, next⟩, hclear, rfl⟩ := Option.map_eq_some_iff.mp hstep
  obtain ⟨filtset, hloop, heq⟩ := Option.map_eq_some_iff.mp hclear
  cases heq
  rw [← List.foldlM_map, input.map_tagid] at hloop
  obtain ⟨hnum, harr, hcounters⟩ := statClearLoop hloop
  refine ⟨hnum, harr, fun tag => ?_, rfl⟩
  simp only [← RuleRange.mem_tags]
  exact hcounters tag

/-- One event follows the table. -/
theorem RuleEvent.apply_has {event : RuleEvent}
    (h : st.acl.filtset.Has rules) (hstep : event.apply st = some final) :
    final.acl.filtset.Has (event.edit rules) := by
  cases event with
  | enable value =>
      obtain rfl := Option.some.inj hstep
      exact h
  | add rule hstart hmax =>
      obtain rfl := Option.some.inj hstep
      exact h.set rule.args hstart hmax
  | del input =>
      obtain rfl := Option.some.inj hstep
      exact (h.delLoop input).1
  | clearAll input =>
      obtain rfl := Option.some.inj hstep
      exact (h.delLoop input).1
  | update =>
      obtain ⟨⟨ret, next⟩, hbuild, rfl⟩ := Option.map_eq_some_iff.mp hstep
      obtain ⟨⟨ret', acl⟩, hpre, heq⟩ := Option.map_eq_some_iff.mp hbuild
      cases heq
      show acl.filtset.Has rules
      rw [preAclLookupByTuple_filtset hpre]
      exact h.setFiltSync
  | statClear input =>
      obtain ⟨hnum, harr, _⟩ := RuleEvent.apply_statClear hstep
      exact h.of_same hnum harr
  | packet work =>
      obtain rfl := Option.some.inj hstep
      refine h.of_same ?_ ?_
      all_goals
        simp only [frcoreRuleProcess]
        split_ifs <;> rfl

/-- Only a build changes the tables. -/
theorem RuleEvent.apply_lookup {event : RuleEvent} (hne : event ≠ .update)
    (hstep : event.apply st = some final) (tuple : AclTuple) :
    aclLookupByTuple final.acl tuple = aclLookupByTuple st.acl tuple := by
  cases event with
  | update => exact absurd rfl hne
  | statClear input =>
      rw [(RuleEvent.apply_statClear hstep).2.2.2]
      rfl
  | packet work =>
      obtain rfl := Option.some.inj hstep
      simp only [frcoreRuleProcess]
      split_ifs <;> rfl
  | enable value =>
      obtain rfl := Option.some.inj hstep
      rfl
  | add rule hstart hmax =>
      obtain rfl := Option.some.inj hstep
      rfl
  | del input =>
      obtain rfl := Option.some.inj hstep
      rfl
  | clearAll input =>
      obtain rfl := Option.some.inj hstep
      rfl

/-- A build that succeeds answers by the rules of the store. -/
theorem frcoreCmdRuleUpdate_answersBy (h : st.acl.filtset.Has rules)
    (hupdate : frcoreCmdRuleUpdate st = some (.ok, final)) :
    final.acl.AnswersBy rules := by
  intro tuple
  obtain ⟨⟨ret, acl⟩, hpre, heq⟩ := Option.map_eq_some_iff.mp hupdate
  cases heq
  have hfirst := h.firstMatch tuple
  obtain ⟨map, hstores, _⟩ := h
  have hbuilt := preAclLookupByTuple_built hstores.numFilters_le_max
    hstores.installed.rangesOk hpre
  show aclLookupByTuple acl tuple = _
  rw [hbuilt.lookup_tag, ← hfirst]
  cases hmatch : firstMatch st.acl.filtset tuple with
  | none =>
      have hnum := hstores.numFilters_le
      rw [Option.getD_none, hstores.cleared (mppMaxFilters - 1)]
      · rfl
      · exact Nat.le_trans hnum (by decide)
      · decide
  | some i =>
      rw [hmatch, Option.map_some] at hfirst
      have hle := RuleTable.lowest_le hfirst.symm
      rw [Option.getD_some, Option.map_some, Option.getD_some,
        Nat.mod_eq_of_lt]
      exact Nat.lt_of_le_of_lt hle (by decide)

end Steps

/-- A build of few rules succeeds. -/
theorem frcoreCmdRuleUpdate_of_few {st : RuleState} {rules : RuleTable}
    (h : st.acl.filtset.Has rules) (hfew : st.acl.filtset.numFilters ≤ 9) :
    ∃ built, frcoreCmdRuleUpdate st = some (.ok, built) := by
  obtain ⟨map, hstores, _⟩ := h
  have houtcome := preAclLookupByTuple_stores_outcome hstores st.acl
  rw [runTables_ok_of_few hfew] at houtcome
  obtain ⟨⟨ret, acl⟩, hpre, rfl⟩ := Option.map_eq_some_iff.mp houtcome
  exact ⟨_, Option.map_eq_some_iff.mpr ⟨_, hpre, rfl⟩⟩

section Runs

variable {st final built : RuleState} {rules : RuleTable}
  {events before after : List RuleEvent}

/-- A run follows the table. -/
theorem runRuleEvents_has (h : st.acl.filtset.Has rules)
    (hrun : runRuleEvents st events = some final) :
    final.acl.filtset.Has (events.foldl RuleEvent.edit rules) := by
  induction events generalizing st rules with
  | nil =>
      obtain rfl := Option.some.inj hrun
      exact h
  | cons event rest ih =>
      obtain ⟨next, hstep, hrest⟩ := Option.bind_eq_some_iff.mp hrun
      exact ih (event.apply_has h hstep) hrest

/-- Without a build the tables stay. -/
theorem runRuleEvents_lookup (hkeep : ∀ event ∈ events, event ≠ .update)
    (hrun : runRuleEvents st events = some final) (tuple : AclTuple) :
    aclLookupByTuple final.acl tuple = aclLookupByTuple st.acl tuple := by
  induction events generalizing st with
  | nil =>
      obtain rfl := Option.some.inj hrun
      rfl
  | cons event rest ih =>
      obtain ⟨next, hstep, hrest⟩ := Option.bind_eq_some_iff.mp hrun
      rw [ih (fun other hmem => hkeep other (List.mem_cons_of_mem _ hmem))
        hrest]
      exact event.apply_lookup (hkeep event List.mem_cons_self) hstep tuple

/-- The tables were built from the rules that these events have left, or
nothing has happened yet. -/
inductive RuleState.BuiltAfter : RuleState → List RuleEvent → Prop
  | boot : RuleState.BuiltAfter .boot []
  | update {before : List RuleEvent} {st built : RuleState}
      (hbefore : runRuleEvents .boot before = some st)
      (hupdate : frcoreCmdRuleUpdate st = some (.ok, built)) :
      RuleState.BuiltAfter built before

theorem RuleState.BuiltAfter.has (h : built.BuiltAfter before) :
    built.acl.filtset.Has (rulesAfter before) := by
  cases h with
  | boot => exact emptyFiltset_has
  | update hbefore hupdate =>
      have hstep : RuleEvent.update.apply _ = some built :=
        Option.map_eq_some_iff.mpr ⟨_, hupdate, rfl⟩
      exact RuleEvent.apply_has (runRuleEvents_has emptyFiltset_has hbefore)
        hstep

theorem RuleState.BuiltAfter.answersBy (h : built.BuiltAfter before) :
    built.acl.AnswersBy (rulesAfter before) := by
  cases h with
  | boot =>
      intro tuple
      have hnone : (rulesAfter []).lowest tuple = none :=
        List.find?_eq_none.mpr fun _ _ => by simp [rulesAfter]
      rw [hnone]
      rfl
  | update hbefore hupdate =>
      exact frcoreCmdRuleUpdate_answersBy
        (runRuleEvents_has emptyFiltset_has hbefore) hupdate

/-- What is counted for a packet. -/
def RuleState.record (st : RuleState) (work : RuleWork) :
    RuleVerdict → RuleState
  | .off | .unused => st
  | .malformed => { st with stats := { st.stats with
      malformedPacket := st.stats.malformedPacket + 1 } }
  | .submitted _ tag =>
      { st.withFiltset (st.acl.filtset.hit tag.toNat work.len.toNat) with
        stats := { st.stats with
          matchedPkts := st.stats.matchedPkts + 1
          matchedBytes := st.stats.matchedBytes +
            .ofNat 64 work.len.toNat } }
  | .notMatched => { st with stats := { st.stats with
      notMatchedPkts := st.stats.notMatchedPkts + 1
      notMatchedBytes := st.stats.notMatchedBytes +
        .ofNat 64 work.len.toNat } }

/-- Tables that answer by rules give the packet what it should get. -/
theorem frcoreRuleProcess_eq {filtset : Filtset} (hhas : filtset.Has rules)
    (h : st.acl.AnswersBy rules) (work : RuleWork) :
    frcoreRuleProcess st work = (rules.verdict st.ruleEnable work,
      st.record work (rules.verdict st.ruleEnable work)) := by
  simp only [frcoreRuleProcess, RuleTable.verdict]
  rw [h work.tuple.aclTuple]
  by_cases henable : st.ruleEnable = 0
  · rw [if_pos henable, if_pos henable]
    rfl
  rw [if_neg henable, if_neg henable]
  by_cases hmalformed : work.Malformed
  · rw [if_pos hmalformed, if_pos hmalformed]
    rfl
  rw [if_neg hmalformed, if_neg hmalformed]
  cases hlowest : rules.lowest work.tuple.aclTuple with
  | none => rfl
  | some tag =>
      have hpos := hhas.lowest_pos hlowest
      have hle := RuleTable.lowest_le hlowest
      simp only [aclMax] at hle
      have hlast : tag ≠ mppMaxFilters - 1 := by
        simp only [mppMaxFilters]
        omega
      have htag : (UInt16.ofNat tag).toNat = tag :=
        UInt16.toNat_ofNat_of_lt' (by simp only [UInt16.size]; omega)
      simp only [Option.getD_some, RuleState.record, htag]
      rw [if_pos (Nat.pos_iff_ne_zero.mp hpos), if_pos hlast]

/-- A rule for every packet. -/
def anyRule : FrcRule := ⟨0, 0, 0, 0, 0, 0, 0, 0, 0, 1⟩

/-- The rule is added as rule 1. -/
def addAnyRule : RuleEvent := .add anyRule (by decide) (by decide)

/-- The range of tag 1. -/
def firstTag : RuleRange where
  index := 1
  num := 1
  start_le := by decide
  stop_le := by decide

theorem addAnyRule_built :
    ∃ st built, runRuleEvents .boot [addAnyRule] = some st ∧
      frcoreCmdRuleUpdate st = some (.ok, built) := by
  have hrun : runRuleEvents .boot [addAnyRule] =
      some (frcoreCmdRuleAdd .boot anyRule) := rfl
  have hhas := runRuleEvents_has emptyFiltset_has hrun
  obtain ⟨built, hupdate⟩ := frcoreCmdRuleUpdate_of_few hhas
    (by decide : 1 ≤ 9)
  exact ⟨_, built, hrun, hupdate⟩

end Runs

end Barley
