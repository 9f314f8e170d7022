/-
`rule add` with ranges.  The tool sends one rule for every combination of
addresses and ports, with consecutive tags; after the next build the card hands
on the packets of the whole box, each with the tag of its place in it.
-/
import Barley.NestedLoops
import Barley.RuleTool

namespace Barley

open NestedLoops (nested)

/-- The values of a loop with an unsigned counter of `width` bits. -/
def loopValues {width : Nat} (start stop : BitVec width) :
    List (BitVec width) :=
  (List.range (stop.toNat - start.toNat)).map fun i =>
    start + .ofNat width i

/-- The arguments of `rule add` as they are parsed: starts and increments. -/
structure RuleAdd where
  index : BitVec 16
  sips : BitVec 32
  sipi : BitVec 32
  dips : BitVec 32
  dipi : BitVec 32
  sps : BitVec 16
  spi : BitVec 16
  dps : BitVec 16
  dpi : BitVec 16
  proto : UInt16
  ruleSource : UInt8
  ruleType : UInt8
  ruleOp : UInt8

section Tool

variable (add : RuleAdd)

/-- The number of rules, as the tool computes it. -/
def RuleAdd.total : BitVec 32 :=
  add.sipi * add.dipi * add.spi.setWidth 32 * add.dpi.setWidth 32

/-- The combinations in the order of the loops. -/
def RuleAdd.combinations :
    List (((BitVec 32 × BitVec 32) × BitVec 16) × BitVec 16) :=
  nested (nested (nested (loopValues add.sips (add.sips + add.sipi))
      (loopValues add.dips (add.dips + add.dipi)))
    (loopValues add.sps (add.sps + add.spi)))
  (loopValues add.dps (add.dps + add.dpi))

/-- The rule for a combination, which is number `cur`. -/
def RuleAdd.rule :
    (((BitVec 32 × BitVec 32) × BitVec 16) × BitVec 16) → Nat → FrcRule
  | (((sip, dip), sp), dp), cur => {
      ruleSource := add.ruleSource.toUInt16
      ruleType := add.ruleType.toUInt16
      action := 0
      op := add.ruleOp.toUInt16
      sip := ⟨sip⟩
      dip := ⟨dip⟩
      sp := ⟨sp⟩
      dp := ⟨dp⟩
      proto := add.proto
      index := ⟨add.index + .ofNat 16 cur⟩ }

/-- The rules that the loops make. -/
def RuleAdd.rules : List FrcRule :=
  add.combinations.zipIdx.map fun (fields, cur) => add.rule fields cur

/-- The rules that `rule add` sends, one after the other.  There are none when
it returns `FRE_PARAM`, or writes behind its array. -/
def RuleAdd.sent : Option (List FrcRule) :=
  if add.index.toNat ≤ 0 ∨ ruleMax < add.index.toNat then none
  else if ruleMax < add.total.toNat then none
  else if ruleMax < add.combinations.length then none
  else some add.rules

variable (wire : RuleWire) (st : RuleState)

/-- A rule as the card has it in memory. -/
def RuleWire.ruleRequest (rule : FrcRule) : List UInt8 :=
  let param := frcRuleT.image .little rule
  (frcdrvAllocCmdSi wire.octeonSwap8BData wire.cmd param.length
    (some param)).drop 8

/-- The rule that the card reads. -/
def frcRuleOfCard (bytes : List UInt8) : FrcRule :=
  match Layout.read .big [2, 2, 2, 2, 4, 4, 2, 2, 2, 2] bytes with
  | [op, action, ruleType, ruleSource, dip, sip, index, proto, dp, sp] => {
      ruleSource := .ofNat ruleSource
      ruleType := .ofNat ruleType
      action := .ofNat action
      op := .ofNat op
      sip := .ofNat sip
      dip := .ofNat dip
      sp := .ofNat sp
      dp := .ofNat dp
      proto := .ofNat proto
      index := .ofNat index }
  | _ => ⟨0, 0, 0, 0, 0, 0, 0, 0, 0, 0⟩

/-- `frcapi_rule_add`, for a card that answers in time. -/
def frcapiRuleAdd (rule : FrcRule) : RuleState :=
  frcoreCmdRuleAdd st (frcRuleOfCard (wire.ruleRequest rule))

/-- `rule add`: the state of the card, or `none` when nothing is sent. -/
def frctweakRuleAdd : Option RuleState :=
  add.sent.map fun rules => rules.foldl (frcapiRuleAdd wire) st

end Tool

/-- What the arguments have to fulfil for the loops to run over the whole box:
no loop ends at a value that is cut off, and the last tag is a tag. -/
structure RuleAdd.Fits (add : RuleAdd) : Prop where
  sip : add.sips.toNat + add.sipi.toNat < 2 ^ 32
  dip : add.dips.toNat + add.dipi.toNat < 2 ^ 32
  sp : add.sps.toNat + add.spi.toNat < 2 ^ 16
  dp : add.dps.toNat + add.dpi.toNat < 2 ^ 16
  first : 1 ≤ add.index.toNat ∧ add.index.toNat ≤ aclMax
  last : add.index.toNat +
    add.sipi.toNat * add.dipi.toNat * add.spi.toNat * add.dpi.toNat ≤
      aclMax + 1

/-- The place of a value in a range.  A range from 0 on has the wildcard as its
first value, which takes everything. -/
def placeIn (start count value : Nat) : Option Nat :=
  if 0 < count ∧ start = 0 then some 0
  else if start ≤ value ∧ value < start + count then some (value - start)
  else none

/-- The tag for a packet: the place of its fields in the box. -/
def RuleAdd.tagOf (add : RuleAdd) (tuple : AclTuple) : Option Nat := do
  let i ← placeIn add.sips.toNat add.sipi.toNat tuple.sip
  let j ← placeIn add.dips.toNat add.dipi.toNat tuple.dip
  let k ← placeIn add.sps.toNat add.spi.toNat tuple.sp
  let l ← placeIn add.dps.toNat add.dpi.toNat tuple.dp
  if add.proto.toNat = 0 ∨ add.proto.toNat = tuple.proto then
    some (add.index.toNat + (((i * add.dipi.toNat + j) * add.spi.toNat + k) *
      add.dpi.toNat + l))
  else none

section Loops

/-- A loop that is not cut off runs over its range. -/
theorem loopValues_eq {width : Nat} {start count : BitVec width}
    (h : start.toNat + count.toNat < 2 ^ width) :
    loopValues start (start + count) =
      (List.range count.toNat).map fun i => start + .ofNat width i := by
  rw [loopValues, BitVec.toNat_add, Nat.mod_eq_of_lt h,
    Nat.add_sub_cancel_left]

theorem length_loopValues {width : Nat} {start count : BitVec width}
    (h : start.toNat + count.toNat < 2 ^ width) :
    (loopValues start (start + count)).length = count.toNat := by
  rw [loopValues_eq h, List.length_map, List.length_range]

/-- The field of a rule takes the value. -/
def takes (value field : Nat) : Bool := field = 0 ∨ field = value

/-- The first value of a loop that takes another one. -/
theorem loopValues_findIdx? {width : Nat} {start count : BitVec width}
    (h : start.toNat + count.toNat < 2 ^ width) (value : Nat) :
    (loopValues start (start + count)).findIdx?
        (fun field => takes value field.toNat) =
      placeIn start.toNat count.toNat value := by
  have htoNat : ∀ i < count.toNat,
      (start + BitVec.ofNat width i).toNat = start.toNat + i := by
    intro i hi
    rw [BitVec.toNat_add, BitVec.toNat_ofNat, Nat.add_mod_mod,
      Nat.mod_eq_of_lt (by omega)]
  rw [loopValues_eq h, List.findIdx?_map]
  have htakes : ∀ i < count.toNat,
      ((fun field : BitVec width => takes value field.toNat) ∘
        fun i => start + BitVec.ofNat width i) i =
          takes value (start.toNat + i) := by
    intro i hi
    simp only [Function.comp_apply, htoNat i hi]
  unfold placeIn
  split_ifs with hwild hin
  · refine List.findIdx?_eq_some_iff_getElem.mpr
      ⟨by simpa using hwild.1, ?_, fun j hj => absurd hj (Nat.not_lt_zero j)⟩
    rw [List.getElem_range, htakes 0 hwild.1]
    simp [takes, hwild.2]
  · refine List.findIdx?_eq_some_iff_getElem.mpr
      ⟨by rw [List.length_range]; omega, ?_, fun j hj => ?_⟩
    · rw [List.getElem_range, htakes _ (by omega)]
      simp only [takes, decide_eq_true_eq]
      omega
    · rw [List.getElem_range, htakes j (by omega)]
      simp only [takes, decide_eq_true_eq]
      omega
  · refine List.findIdx?_eq_none_iff.mpr fun i hi => ?_
    have hlt := List.mem_range.mp hi
    rw [htakes i hlt]
    simp only [takes, decide_eq_false_iff_not]
    omega

end Loops

section Box

variable {add : RuleAdd} (h : add.Fits)

include h

theorem RuleAdd.Fits.length_combinations :
    add.combinations.length = add.sipi.toNat * add.dipi.toNat *
      add.spi.toNat * add.dpi.toNat := by
  simp only [RuleAdd.combinations, NestedLoops.length_nested,
    length_loopValues h.sip, length_loopValues h.dip, length_loopValues h.sp,
    length_loopValues h.dp]

theorem RuleAdd.Fits.total_eq :
    add.total.toNat = add.combinations.length := by
  have hlast := h.last
  rw [h.length_combinations]
  simp only [aclMax] at hlast
  have htotal : add.total.toNat = add.sipi.toNat * add.dipi.toNat *
      add.spi.toNat * add.dpi.toNat % 2 ^ 32 := by
    simp [RuleAdd.total, BitVec.toNat_mul, Nat.mul_mod]
  rw [htotal]
  exact Nat.mod_eq_of_lt (by omega)

/-- The rules that are sent. -/
theorem RuleAdd.Fits.sends : add.sent = some add.rules := by
  obtain ⟨hfirst, hindex⟩ := h.first
  have hlast := h.last
  have htotal := h.total_eq
  rw [← h.length_combinations] at hlast
  simp only [aclMax] at hlast hindex
  rw [RuleAdd.sent, if_neg, if_neg, if_neg]
  · simp only [ruleMax]
    omega
  · simp only [ruleMax]
    omega
  · simp only [ruleMax]
    omega

end Box

section Sent

/-- The table of rules with consecutive tags. -/
def addedFrom (index : Nat) (rules : List FrcRule) : RuleTable := fun tag =>
  if index ≤ tag then (rules[tag - index]?).map FrcRule.args else none

/-- Rules with consecutive tags, sent into an empty store. -/
theorem sendRules_has {rules : List FrcRule} {st : RuleState} {index : Nat}
    (hst : st.acl.filtset.Has fun _ => none)
    (hindex : ∀ cur rule, rules[cur]? = some rule →
      rule.index.toNat = index + cur)
    (hfirst : 1 ≤ index) (hlast : index + rules.length ≤ aclMax + 1) :
    (rules.foldl frcoreCmdRuleAdd st).acl.filtset.Has
      (addedFrom index rules) := by
  induction rules using List.reverseRecOn with
  | nil =>
      have hempty : addedFrom index [] = fun _ => none := by
        funext tag
        simp [addedFrom]
      rw [hempty]
      exact hst
  | append_singleton rules rule ih =>
      rw [List.length_append, List.length_singleton] at hlast
      have hrules : ∀ cur other, rules[cur]? = some other →
          other.index.toNat = index + cur := by
        intro cur other hget
        have hlt := (List.getElem?_eq_some_iff.mp hget).1
        exact hindex cur other (by rw [List.getElem?_append_left hlt, hget])
      have hrule : rule.index.toNat = index + rules.length :=
        hindex rules.length rule (by simp)
      have hset := (ih hrules (by omega)).set rule.args
        (by rw [hrule, aclIndexStart]; omega : aclIndexStart ≤ rule.index.toNat)
        (by rw [hrule]; omega)
      have htable : Function.update (addedFrom index rules) rule.index.toNat
          (some rule.args) = addedFrom index (rules ++ [rule]) := by
        funext tag
        rw [hrule]
        by_cases htag : tag = index + rules.length
        · subst htag
          simp [addedFrom]
        · rw [Function.update_of_ne htag]
          simp only [addedFrom]
          split_ifs with hle
          · rcases Nat.lt_or_ge (tag - index) rules.length with hlt | hge
            · rw [List.getElem?_append_left hlt]
            · rw [List.getElem?_eq_none (by omega),
                List.getElem?_eq_none (by simp; omega)]
          · rfl
      rw [htable] at hset
      rw [List.foldl_append]
      exact hset

/-- The lowest match is the first rule that matches. -/
theorem addedFrom_lowest {rules : List FrcRule} {index : Nat}
    (hlast : index + rules.length ≤ aclMax + 1) (tuple : AclTuple) :
    (addedFrom index rules).lowest tuple =
      (rules.findIdx? fun rule => decide (rule.args.Matches tuple)).map
        (index + ·) := by
  cases hfind : rules.findIdx? fun rule =>
      decide (rule.args.Matches tuple) with
  | none =>
      refine List.find?_eq_none.mpr fun tag _ hany => ?_
      obtain ⟨args, hargs, hmatch⟩ := (Option.any_eq_true _ _).mp hany
      rw [addedFrom] at hargs
      split_ifs at hargs
      obtain ⟨rule, hget, rfl⟩ := Option.map_eq_some_iff.mp hargs
      have hnone := List.findIdx?_eq_none_iff.mp hfind rule
        (List.mem_of_getElem? hget)
      rw [hnone] at hmatch
      cases hmatch
  | some cur =>
      obtain ⟨hcur, hmatch, hbefore⟩ :=
        List.findIdx?_eq_some_iff_getElem.mp hfind
      show (addedFrom index rules).lowest tuple = some (index + cur)
      refine List.find?_range_eq_some.mpr
        ⟨?_, List.mem_range.mpr (by omega), fun tag htag => ?_⟩
      · rw [addedFrom, if_pos (Nat.le_add_right ..), Nat.add_sub_cancel_left,
          List.getElem?_eq_getElem hcur]
        exact hmatch
      · rw [addedFrom]
        split_ifs with hle
        · have hlt : tag - index < cur := by omega
          rw [List.getElem?_eq_getElem (by omega : tag - index < rules.length)]
          simpa using hbefore (tag - index) hlt
        · rfl

end Sent

section Box

variable {add : RuleAdd} (h : add.Fits)

include h

theorem RuleAdd.Fits.index_of_rules {cur : Nat} {rule : FrcRule}
    (hget : add.rules[cur]? = some rule) :
    rule.index.toNat = add.index.toNat + cur := by
  have hlast := h.last
  rw [← h.length_combinations] at hlast
  have hlt := (List.getElem?_eq_some_iff.mp hget).1
  rw [RuleAdd.rules, List.length_map, List.length_zipIdx] at hlt
  rw [RuleAdd.rules, List.getElem?_map, List.getElem?_zipIdx,
    List.getElem?_eq_getElem hlt] at hget
  simp only [Option.map_some, Option.some.injEq, Nat.zero_add] at hget
  subst hget
  show (add.index + BitVec.ofNat 16 cur).toNat = _
  simp only [aclMax] at hlast
  rw [BitVec.toNat_add, BitVec.toNat_ofNat, Nat.add_mod_mod,
    Nat.mod_eq_of_lt (by omega)]

theorem RuleAdd.Fits.length_rules :
    add.index.toNat + add.rules.length ≤ aclMax + 1 := by
  rw [RuleAdd.rules, List.length_map, List.length_zipIdx,
    h.length_combinations]
  exact h.last

/-- The first combination that takes the addresses and ports of a packet. -/
theorem RuleAdd.Fits.findIdx?_combinations (tuple : AclTuple) :
    add.combinations.findIdx? (fun fields =>
        ((takes tuple.sip fields.1.1.1.toNat &&
          takes tuple.dip fields.1.1.2.toNat) &&
          takes tuple.sp fields.1.2.toNat) &&
          takes tuple.dp fields.2.toNat) =
      (do
        let i ← placeIn add.sips.toNat add.sipi.toNat tuple.sip
        let j ← placeIn add.dips.toNat add.dipi.toNat tuple.dip
        let k ← placeIn add.sps.toNat add.spi.toNat tuple.sp
        let l ← placeIn add.dps.toNat add.dpi.toNat tuple.dp
        some (((i * add.dipi.toNat + j) * add.spi.toNat + k) *
          add.dpi.toNat + l)) := by
  rw [RuleAdd.combinations, NestedLoops.findIdx?_nested _ _
      (fun fields : (BitVec 32 × BitVec 32) × BitVec 16 =>
        (takes tuple.sip fields.1.1.toNat &&
          takes tuple.dip fields.1.2.toNat) && takes tuple.sp fields.2.toNat)
      (fun dp : BitVec 16 => takes tuple.dp dp.toNat),
    NestedLoops.findIdx?_nested _ _
      (fun fields : BitVec 32 × BitVec 32 =>
        takes tuple.sip fields.1.toNat && takes tuple.dip fields.2.toNat)
      (fun sp : BitVec 16 => takes tuple.sp sp.toNat),
    NestedLoops.findIdx?_nested _ _
      (fun sip : BitVec 32 => takes tuple.sip sip.toNat)
      (fun dip : BitVec 32 => takes tuple.dip dip.toNat),
    loopValues_findIdx? h.sip, loopValues_findIdx? h.dip,
    loopValues_findIdx? h.sp, loopValues_findIdx? h.dp,
    length_loopValues h.dip, length_loopValues h.sp, length_loopValues h.dp]
  simp only [Option.bind_eq_bind, Option.map_eq_bind, Option.bind_assoc,
    Option.bind_some, Function.comp_def]

/-- The first rule of the box that matches is at the place of the packet. -/
theorem RuleAdd.Fits.findIdx?_rules (tuple : AclTuple) :
    (add.rules.findIdx? fun rule => decide (rule.args.Matches tuple)).map
      (add.index.toNat + ·) = add.tagOf tuple := by
  have hrule : ∀ entry : (((BitVec 32 × BitVec 32) × BitVec 16) × BitVec 16) ×
      Nat, decide ((add.rule entry.1 entry.2).args.Matches tuple) =
        ((((takes tuple.sip entry.1.1.1.1.toNat &&
          takes tuple.dip entry.1.1.1.2.toNat) &&
          takes tuple.sp entry.1.1.2.toNat) &&
          takes tuple.dp entry.1.2.toNat) &&
          takes tuple.proto add.proto.toNat) := by
    rintro ⟨⟨⟨⟨sip, dip⟩, sp⟩, dp⟩, cur⟩
    simp only [takes, RuleArgs.Matches, FrcRule.args, RuleAdd.rule,
      ← Bool.decide_and, and_assoc]
    rfl
  have hcomp : (fun rule => decide (rule.args.Matches tuple)) ∘
      (fun entry : (((BitVec 32 × BitVec 32) × BitVec 16) × BitVec 16) × Nat =>
        add.rule entry.1 entry.2) =
      (fun fields : ((BitVec 32 × BitVec 32) × BitVec 16) × BitVec 16 =>
        (((takes tuple.sip fields.1.1.1.toNat &&
          takes tuple.dip fields.1.1.2.toNat) &&
          takes tuple.sp fields.1.2.toNat) &&
          takes tuple.dp fields.2.toNat) &&
          takes tuple.proto add.proto.toNat) ∘ Prod.fst := funext hrule
  show ((add.combinations.zipIdx.map fun entry =>
    add.rule entry.1 entry.2).findIdx? _).map _ = _
  rw [List.findIdx?_map, hcomp, ← List.findIdx?_map, List.zipIdx_map_fst]
  by_cases hproto : add.proto.toNat = 0 ∨ add.proto.toNat = tuple.proto
  · have htakes : takes tuple.proto add.proto.toNat = true :=
      decide_eq_true hproto
    simp only [htakes, Bool.and_true]
    rw [h.findIdx?_combinations, RuleAdd.tagOf]
    simp only [if_pos hproto, Option.bind_eq_bind, Option.map_bind,
      Function.comp_def, Option.map_some]
  · have htakes : takes tuple.proto add.proto.toNat = false :=
      decide_eq_false hproto
    have hnone : add.tagOf tuple = none := by
      simp only [RuleAdd.tagOf, if_neg hproto, Option.bind_eq_bind,
        Option.bind_fun_none]
    rw [hnone, Option.map_eq_none_iff, List.findIdx?_eq_none_iff]
    intro fields _
    rw [htakes, Bool.and_false]

end Box

section Classified

variable {wire : RuleWire} {add : RuleAdd}
  (hswap : ∀ data blocks,
    wire.octeonSwap8BData data blocks = Bytes.swapWords blocks data)

include hswap

/-- The card reads the rule that the tool has made. -/
theorem RuleWire.ruleRequest_eq (rule : FrcRule) :
    frcRuleOfCard (wire.ruleRequest rule) = rule := by
  obtain ⟨_, hread⟩ := requestAgrees hswap FrcRule.words rule wire.cmd
    wire.cmd_length
  have hwidths : (rule.members .big).map Member.width =
      [2, 2, 2, 2, 4, 4, 2, 2, 2, 2] := rfl
  rw [frcRuleOfCard, RuleWire.ruleRequest]
  rw [show frcRuleT.members rule .big = rule.members .big from rfl,
    hwidths] at hread
  rw [hread]
  simp [FrcRule.members, Member.u16, Member.u32]

/-- The card adds the rules that are sent. -/
theorem frcapiRuleAdd_eq :
    frcapiRuleAdd wire = frcoreCmdRuleAdd := by
  funext st rule
  rw [frcapiRuleAdd, RuleWire.ruleRequest_eq hswap]

omit hswap in
theorem sendRules_ruleEnable (rules : List FrcRule) (st : RuleState) :
    (rules.foldl frcoreCmdRuleAdd st).ruleEnable = st.ruleEnable := by
  induction rules generalizing st with
  | nil => rfl
  | cons rule rules ih => exact ih (frcoreCmdRuleAdd st rule)

/-- What `rule add` with ranges amounts to.  Into a card without rules it sends
one rule for each combination; when the card has built its tables from them,
every packet of the box of addresses and ports is handed on with the tag of its
place in the box, and every other packet is not matched. -/
theorem frctweakRuleAdd_classifies (h : add.Fits) {events : List RuleEvent}
    {st : RuleState} (hrun : runRuleEvents .boot events = some st)
    (hempty : ∀ tag, rulesAfter events tag = none) :
    ∃ sent, frctweakRuleAdd add wire st = some sent ∧
      ∀ built, frcoreCmdRuleUpdate sent = some (.ok, built) →
        ∀ work, (frcoreRuleProcess built work).1 =
          if st.ruleEnable = 0 then .off
          else if work.Malformed then .malformed
          else match add.tagOf work.tuple.aclTuple with
            | some tag => .submitted work.packet (.ofNat tag)
            | none => .notMatched := by
  have hlength := h.length_rules
  have hnone : st.acl.filtset.Has fun _ => none := by
    have hhas := runRuleEvents_has emptyFiltset_has hrun
    have hrules : rulesAfter events = fun _ => none := funext hempty
    rw [← hrules]
    exact hhas
  have hadded := sendRules_has hnone
    (fun _ _ hget => h.index_of_rules hget) h.first.1 hlength
  refine ⟨add.rules.foldl frcoreCmdRuleAdd st, ?_, ?_⟩
  · rw [frctweakRuleAdd, h.sends, Option.map_some, frcapiRuleAdd_eq hswap]
  · intro built hupdate work
    have hanswers := frcoreCmdRuleUpdate_answersBy hadded hupdate
    have henable : built.ruleEnable = st.ruleEnable := by
      obtain ⟨⟨ret, acl⟩, _, heq⟩ := Option.map_eq_some_iff.mp hupdate
      cases heq
      exact sendRules_ruleEnable add.rules st
    rw [frcoreRuleProcess_eq hadded hanswers work]
    show (addedFrom add.index.toNat add.rules).verdict built.ruleEnable work = _
    rewrite [RuleTable.verdict, henable, addedFrom_lowest hlength,
      h.findIdx?_rules]
    rfl

/-- Two source addresses and one port. -/
def twoSources : RuleAdd where
  index := 7
  sips := 0x0a000001
  sipi := 2
  dips := 0
  dipi := 1
  sps := 0
  spi := 1
  dps := 80
  dpi := 1
  proto := 6
  ruleSource := 0
  ruleType := 0
  ruleOp := 0

omit hswap in
theorem twoSources_fits : twoSources.Fits :=
  ⟨by decide, by decide, by decide, by decide, by decide, by decide⟩

omit hswap in
/-- The packets of the second address get the second tag. -/
theorem frctweakRuleAdd_classifies_two :
    ∃ wire sent built, frctweakRuleAdd twoSources wire
        (frcoreCmdRuleEnable .boot 1) = some sent ∧
      frcoreCmdRuleUpdate sent = some (.ok, built) ∧
      ∀ work : RuleWork, ¬ work.Malformed →
        twoSources.tagOf work.tuple.aclTuple = some 8 →
        (frcoreRuleProcess built work).1 = .submitted work.packet 8 := by
  let wire : RuleWire := ⟨fun data blocks => Bytes.swapWords blocks data,
    List.replicate 8 0, List.replicate 8 0, [], rfl, rfl⟩
  have hswap : ∀ data blocks,
      wire.octeonSwap8BData data blocks = Bytes.swapWords blocks data :=
    fun _ _ => rfl
  have hrun : runRuleEvents .boot [.enable 1] =
      some (frcoreCmdRuleEnable .boot 1) := rfl
  obtain ⟨sent, hsent, hclassifies⟩ := frctweakRuleAdd_classifies hswap
    twoSources_fits hrun fun _ => rfl
  have hrules : sent = twoSources.rules.foldl frcoreCmdRuleAdd
      (frcoreCmdRuleEnable .boot 1) := by
    rw [frctweakRuleAdd, twoSources_fits.sends,
      frcapiRuleAdd_eq hswap] at hsent
    exact (Option.some.inj hsent).symm
  have hfew : sent.acl.filtset.numFilters ≤ 9 := by
    rw [hrules]
    decide
  have hhas : sent.acl.filtset.Has (addedFrom 7 twoSources.rules) := by
    rw [hrules]
    exact sendRules_has emptyFiltset_has
      (fun _ _ hget => twoSources_fits.index_of_rules hget) (by decide)
      twoSources_fits.length_rules
  obtain ⟨built, hupdate⟩ := frcoreCmdRuleUpdate_of_few hhas hfew
  refine ⟨wire, sent, built, hsent, hupdate, fun work hwell htag => ?_⟩
  rw [hclassifies built hupdate work, htag, if_neg (by decide), if_neg hwell]
  rfl

end Classified

end Barley
