/-
What the counters of the rules say.  Between two edits of the store each rule
counts the packets it was the lowest match of, and the five totals count every
packet that came while rules were on.
-/
import Barley.RuleSnapshot
import Mathlib.Algebra.BigOperators.Group.Finset.Piecewise

namespace Barley

/-- The packets of a run with what became of each, under these rules. -/
def packetVerdicts (rules : RuleTable) :
    UInt8 → List RuleEvent → List (RuleWork × RuleVerdict)
  | _, [] => []
  | _, .enable value :: rest => packetVerdicts rules value rest
  | enabled, .packet work :: rest =>
      (work, rules.verdict enabled work) :: packetVerdicts rules enabled rest
  | enabled, .add .. :: rest | enabled, .del _ :: rest
  | enabled, .clearAll _ :: rest | enabled, .update :: rest
  | enabled, .statClear _ :: rest => packetVerdicts rules enabled rest

/-- The tag a packet was handed on with. -/
def RuleVerdict.tag? : RuleVerdict → Option Nat
  | .submitted _ tag => some tag.toNat
  | .off | .malformed | .unused | .notMatched => none

/-- A packet was counted as malformed. -/
def RuleVerdict.isMalformed : RuleVerdict → Bool
  | .malformed => true
  | .off | .submitted .. | .unused | .notMatched => false

/-- A packet was counted as one that no rule matches. -/
def RuleVerdict.isNotMatched : RuleVerdict → Bool
  | .notMatched => true
  | .off | .malformed | .submitted .. | .unused => false

/-- The number and the bytes of the packets with a property. -/
def tally (p : RuleVerdict → Bool) (packets : List (RuleWork × RuleVerdict)) :
    Nat × Nat :=
  let counted := packets.filter fun packet => p packet.2
  (counted.length, (counted.map fun packet => packet.1.len.toNat).sum)

/-- An event that neither edits the store nor touches the counters of a tag,
but for the packets it brings. -/
def RuleEvent.Quiet (tag : Nat) : RuleEvent → Prop
  | .enable _ | .packet _ => True
  | .statClear input => ¬ input.Covers tag
  | .add .. | .del _ | .clearAll _ | .update => False

/-- The totals after more packets. -/
def RuleStats.plus (stats : RuleStats)
    (packets : List (RuleWork × RuleVerdict)) : RuleStats :=
  let malformed := tally RuleVerdict.isMalformed packets
  let matched := tally (fun verdict => verdict.tag?.isSome) packets
  let notMatched := tally RuleVerdict.isNotMatched packets
  { malformedPacket := stats.malformedPacket + .ofNat 64 malformed.1
    matchedPkts := stats.matchedPkts + .ofNat 64 matched.1
    matchedBytes := stats.matchedBytes + .ofNat 64 matched.2
    notMatchedPkts := stats.notMatchedPkts + .ofNat 64 notMatched.1
    notMatchedBytes := stats.notMatchedBytes + .ofNat 64 notMatched.2 }

section Tally

variable {p : RuleVerdict → Bool} {work : RuleWork} {verdict : RuleVerdict}
  {packets : List (RuleWork × RuleVerdict)}

theorem tally_nil : tally p [] = (0, 0) := rfl

theorem tally_cons_pos (h : p verdict) :
    tally p ((work, verdict) :: packets) =
      (1 + (tally p packets).1, work.len.toNat + (tally p packets).2) := by
  simp [tally, h, Nat.add_comm]

theorem tally_cons_neg (h : ¬ p verdict) :
    tally p ((work, verdict) :: packets) = tally p packets := by
  simp [tally, h]

theorem tally_append (p : RuleVerdict → Bool)
    (first second : List (RuleWork × RuleVerdict)) :
    tally p (first ++ second) = tally p first + tally p second := by
  simp [tally]

/-- The packets of the single tags make up all that were handed on. -/
theorem sum_tally_tags (hle : ∀ packet ∈ packets, ∀ tag,
    packet.2.tag? = some tag → tag ≤ aclMax) :
    ∑ tag ∈ Finset.range (aclMax + 1),
        (tally (fun verdict => verdict.tag? == some tag) packets).1 =
      (tally (fun verdict => verdict.tag?.isSome) packets).1 := by
  induction packets with
  | nil => simp [tally_nil]
  | cons packet rest ih =>
      obtain ⟨work, verdict⟩ := packet
      have hrest := ih fun other hmem =>
        hle other (List.mem_cons_of_mem _ hmem)
      cases htag : verdict.tag? with
      | none =>
          rw [tally_cons_neg (by simp [htag]), ← hrest]
          refine Finset.sum_congr rfl fun tag _ => ?_
          rw [tally_cons_neg (by simp [htag])]
      | some own =>
          rw [tally_cons_pos (by simp [htag]), ← hrest]
          have hown : own ∈ Finset.range (aclMax + 1) :=
            Finset.mem_range.mpr (Nat.lt_succ_of_le
              (hle _ List.mem_cons_self own htag))
          have hsplit : ∀ tag, (tally (fun verdict => verdict.tag? == some tag)
              ((work, verdict) :: rest)).1 = (if own = tag then 1 else 0) +
                (tally (fun verdict => verdict.tag? == some tag) rest).1 := by
            intro tag
            by_cases heq : own = tag
            · rw [if_pos heq, tally_cons_pos (by simp [htag, heq])]
            · rw [if_neg heq, tally_cons_neg (by simp [htag, heq]),
                Nat.zero_add]
          simp only [hsplit]
          rw [Finset.sum_add_distrib, Finset.sum_ite_eq, if_pos hown]

theorem RuleStats.plus_nil (stats : RuleStats) : stats.plus [] = stats := by
  simp [RuleStats.plus, tally_nil]

theorem RuleStats.plus_append (stats : RuleStats)
    (first second : List (RuleWork × RuleVerdict)) :
    stats.plus (first ++ second) = (stats.plus first).plus second := by
  simp only [RuleStats.plus, tally_append, Prod.fst_add, Prod.snd_add,
    BitVec.ofNat_add, BitVec.add_assoc]

end Tally

section Runs

variable {st next final : RuleState} {rules : RuleTable} {tag : Nat}

/-- The counters of a tag, as they are after a number of packets from 0. -/
def RuleState.Counts (st : RuleState) (tag : Nat) (count : Nat × Nat) : Prop :=
  st.acl.filtset.counters tag =
    ((count.1 : Int).bmod (2 ^ 64), (count.2 : Int).bmod (2 ^ 64))

/-- The counters of a tag move by the packets that get it. -/
theorem RuleState.record_counters (st : RuleState) (work : RuleWork)
    (verdict : RuleVerdict) (tag : Nat) :
    (st.record work verdict).acl.filtset.counters tag =
      if verdict.tag? = some tag then
        (((st.acl.filtset.counters tag).1 + 1).bmod (2 ^ 64),
          ((st.acl.filtset.counters tag).2 + work.len.toNat).bmod (2 ^ 64))
      else st.acl.filtset.counters tag := by
  cases verdict with
  | off => rfl
  | unused => rfl
  | malformed => rfl
  | notMatched => rfl
  | submitted packet own =>
      by_cases hown : own.toNat = tag
      · subst hown
        simp [RuleVerdict.tag?, RuleState.record, RuleState.withFiltset,
          Filtset.hit, Filtset.counters]
      · simp [RuleVerdict.tag?, RuleState.record, RuleState.withFiltset,
          Filtset.hit, Filtset.counters, hown, Ne.symm hown]

theorem RuleState.record_counts (work : RuleWork) (verdict : RuleVerdict)
    {count : Nat × Nat} (h : st.Counts tag count) :
    (st.record work verdict).Counts tag
      (count + tally (fun verdict => verdict.tag? == some tag)
        [(work, verdict)]) := by
  rw [RuleState.Counts] at h
  rw [RuleState.Counts, RuleState.record_counters, h]
  by_cases htag : verdict.tag? = some tag
  · rw [if_pos htag, tally_cons_pos (by simp [htag]), tally_nil,
      Int.bmod_add_bmod, Int.bmod_add_bmod]
    simp
  · rw [if_neg htag, tally_cons_neg (by simp [htag]), tally_nil]
    simp

theorem RuleState.record_stats (st : RuleState) (work : RuleWork)
    (verdict : RuleVerdict) :
    (st.record work verdict).stats = st.stats.plus [(work, verdict)] := by
  cases verdict <;>
    simp [RuleState.record, RuleStats.plus, tally, RuleVerdict.isMalformed,
      RuleVerdict.isNotMatched, RuleVerdict.tag?, RuleState.withFiltset]

theorem RuleState.record_ruleEnable (st : RuleState) (work : RuleWork)
    (verdict : RuleVerdict) :
    (st.record work verdict).ruleEnable = st.ruleEnable := by
  cases verdict <;> rfl

/-- One quiet event counts the packet it brings, if any. -/
theorem RuleEvent.apply_counts {filtset : Filtset} (hhas : filtset.Has rules)
    (hanswers : st.acl.AnswersBy rules) {event : RuleEvent}
    (hquiet : event.Quiet tag) (hstep : event.apply st = some next)
    {count : Nat × Nat} (h : st.Counts tag count)
    (rest : List RuleEvent) :
    ∃ packets, packetVerdicts rules st.ruleEnable (event :: rest) =
        packets ++ packetVerdicts rules next.ruleEnable rest ∧
      next.Counts tag
        (count + tally (fun verdict => verdict.tag? == some tag) packets) ∧
      next.stats = st.stats.plus packets := by
  cases event with
  | enable value =>
      obtain rfl := Option.some.inj hstep
      exact ⟨[], rfl, h, st.stats.plus_nil.symm⟩
  | statClear input =>
      obtain ⟨_, _, hcounters, heq⟩ := RuleEvent.apply_statClear hstep
      have hcounts := ((hcounters tag).trans (if_neg hquiet)).trans h
      rw [heq]
      exact ⟨[], rfl, hcounts, st.stats.plus_nil.symm⟩
  | packet work =>
      have hnext : frcoreRuleProcess st work = _ :=
        frcoreRuleProcess_eq hhas hanswers work
      rw [RuleEvent.apply, hnext, Option.some.injEq] at hstep
      subst hstep
      refine ⟨[(work, rules.verdict st.ruleEnable work)], ?_, ?_, ?_⟩
      · rw [RuleState.record_ruleEnable]
        rfl
      · exact RuleState.record_counts work _ h
      · exact st.record_stats work _
  | add rule hstart hmax => exact absurd hquiet id
  | del input => exact absurd hquiet id
  | clearAll input => exact absurd hquiet id
  | update => exact absurd hquiet id

/-- A run of quiet events counts all its packets. -/
theorem runRuleEvents_counts {filtset : Filtset} (hhas : filtset.Has rules)
    (hanswers : st.acl.AnswersBy rules) {events : List RuleEvent}
    (hquiet : ∀ event ∈ events, event.Quiet tag)
    (hrun : runRuleEvents st events = some final) {count : Nat × Nat}
    (h : st.Counts tag count) :
    final.Counts tag (count + tally (fun verdict => verdict.tag? == some tag)
        (packetVerdicts rules st.ruleEnable events)) ∧
      final.stats =
        st.stats.plus (packetVerdicts rules st.ruleEnable events) := by
  induction events generalizing st count with
  | nil =>
      obtain rfl := Option.some.inj hrun
      exact ⟨h, st.stats.plus_nil.symm⟩
  | cons event rest ih =>
      obtain ⟨next, hstep, hrest⟩ := Option.bind_eq_some_iff.mp hrun
      have hevent := hquiet event List.mem_cons_self
      have hne : event ≠ .update := by
        rintro rfl
        exact hevent
      have hnext : next.acl.AnswersBy rules := fun tuple =>
        (event.apply_lookup hne hstep tuple).trans (hanswers tuple)
      obtain ⟨packets, heq, hcounts, hstats⟩ :=
        RuleEvent.apply_counts hhas hanswers hevent hstep h rest
      obtain ⟨hfinal, htotal⟩ := ih hnext
        (fun other hmem => hquiet other (List.mem_cons_of_mem _ hmem)) hrest
        hcounts
      rw [heq, tally_append, ← add_assoc, RuleStats.plus_append, ← hstats]
      exact ⟨hfinal, htotal⟩

/-- The counters that are read are the low halves of the ones that are kept. -/
theorem RuleState.Counts.info {count : Nat × Nat} (h : st.Counts tag count)
    {info : FilterInfo}
    (hinfo : aclGetfilterByTagid st.acl.filtset tag = some info) :
    info.pkts = count.1 % 2 ^ 32 ∧ info.bytes = count.2 % 2 ^ 32 := by
  have hlow : ∀ n : Nat, (((n : Int).bmod (2 ^ 64)) % 2 ^ 32).toNat =
      n % 2 ^ 32 := by
    intro n
    have hdvd : (2 ^ 32 : Int) ∣ ((2 ^ 64 : Nat) : Int) := by decide
    rw [← Int.emod_emod_of_dvd _ hdvd, Int.bmod_emod,
      Int.emod_emod_of_dvd _ hdvd]
    omega
  simp only [RuleState.Counts, Filtset.counters, Prod.mk.injEq] at h
  rw [aclGetfilterByTagid] at hinfo
  obtain ⟨i, _, rfl⟩ := Option.map_eq_some_iff.mp hinfo
  simp only [h.1, h.2]
  exact ⟨hlow count.1, hlow count.2⟩

theorem packetVerdicts_tag_le {enabled : UInt8} {events : List RuleEvent} :
    ∀ packet ∈ packetVerdicts rules enabled events, ∀ own,
      packet.2.tag? = some own → own ≤ aclMax := by
  induction events generalizing enabled with
  | nil => exact fun _ h => absurd h List.not_mem_nil
  | cons event rest ih =>
      cases event with
      | packet work =>
          rintro packet hmem own hown
          rcases List.mem_cons.mp hmem with rfl | hrest
          · simp only [RuleTable.verdict] at hown
            split_ifs at hown
            · cases hown
            · cases hown
            · split at hown
              · rename_i tag hlowest
                have hle := RuleTable.lowest_le hlowest
                simp only [RuleVerdict.tag?, Option.some.injEq] at hown
                rw [← hown, UInt16.toNat_ofNat']
                exact Nat.le_trans (Nat.mod_le ..) hle
              · cases hown
          · exact ih packet hrest own hown
      | enable value => exact ih
      | add rule hstart hmax => exact ih
      | del input => exact ih
      | clearAll input => exact ih
      | update => exact ih
      | statClear input => exact ih

/-- A packet of zeros. -/
def zeroWork : RuleWork := ⟨60, 0, fun _ => 0, 14, 34, 40, 0, 0⟩

theorem addAnyRule_lowest (tuple : AclTuple) :
    (rulesAfter [addAnyRule]).lowest tuple = some 1 := by
  have hone : rulesAfter [addAnyRule] 1 = some anyRule.args := rfl
  have hmatches : anyRule.args.Matches tuple :=
    ⟨.inl rfl, .inl rfl, .inl rfl, .inl rfl, .inl rfl⟩
  refine List.find?_range_eq_some.mpr ⟨?_, List.mem_range.mpr (by decide), ?_⟩
  · rw [hone]
    exact decide_eq_true hmatches
  · intro tag htag
    obtain rfl := Nat.lt_one_iff.mp htag
    rfl

theorem addAnyRule_verdict :
    (rulesAfter [addAnyRule]).verdict 1 zeroWork =
      .submitted zeroWork.packet 1 := by
  rw [RuleTable.verdict, if_neg (by decide), if_neg (by decide),
    addAnyRule_lowest]
  rfl

end Runs

end Barley
