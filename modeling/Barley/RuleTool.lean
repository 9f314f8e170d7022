/-
The tool's view of the rules.  `rule get` and `rule cnt` ask the card for a
range of tags in pages; every request and every answer goes through the driver
as bytes in the order of the other side.
-/
import Barley.RuleAccounts

namespace Barley

/-- `RULE_MAX`. -/
def ruleMax : Nat := 2000

/-- `frc_rule_op_in_t`. -/
def FrcOpIn.members (input : FrcOpIn) : Endian → List Member
  | .little => [⟨4, input.index.toNat, input.index.isLt⟩,
      ⟨4, input.num.toNat, input.num.isLt⟩]
  | .big => [⟨4, input.num.toNat, input.num.isLt⟩,
      ⟨4, input.index.toNat, input.index.isLt⟩]

section Answer

/-- Unpacking a number of structures. -/
def takeMany {α : Type} (unpack : Unpack α) : Nat → Unpack (List α)
  | 0 => return []
  | count + 1 => do
      let value ← unpack
      let rest ← takeMany unpack count
      return value :: rest

/-- What the tool gets out of an answer: `num`, and that many entries. -/
def ruleStatOutUnpack : Unpack (List FrcRuleStat) := do
  let num ← takeU32
  takeMany (frcRuleStatUnpack .little) num.toNat

/-- `frc_rule_stat_out_t` in the memory of the card.  The entries that the
command has not written keep the bytes of the stack. -/
def StatOut.image (out : StatOut FrcRuleStat) (stack : List UInt8) :
    List UInt8 :=
  (Member.u32 (.ofNat out.num)).bytes .big ++
    (out.stat.flatMap fun stat => frcRuleStatT.image .big stat) ++ stack

end Answer

/-- The way of one command: the driver's function that swaps words, the command
itself, and the bytes of the answer that the command has no say in. -/
structure RuleWire where
  octeonSwap8BData : List UInt8 → Nat → List UInt8
  cmd : List UInt8
  head : List UInt8
  stack : List UInt8
  cmd_length : cmd.length = 8
  head_length : head.length = 8

section Tool

variable (wire : RuleWire) (filtset : Filtset)

/-- The request as the card has it in memory. -/
def RuleWire.request (input : FrcOpIn) : List UInt8 :=
  let param := Layout.image .little (input.members .little)
  (frcdrvAllocCmdSi wire.octeonSwap8BData wire.cmd param.length
    (some param)).drop 8

/-- The request that the card reads. -/
def frcOpInOfCard (bytes : List UInt8) : FrcOpIn :=
  match Layout.read .big [4, 4] bytes with
  | [num, index] => ⟨.ofNat 32 index, .ofNat 32 num⟩
  | _ => ⟨0, 0⟩

/-- `frcapi_rule_stat_get`, for a card that answers in time. -/
def frcapiRuleStatGet (input : FrcOpIn) : Option (List UInt8) :=
  (frcoreCmdRuleStatGet filtset (frcOpInOfCard (wire.request input))).map
    fun out => (frcdrvCoreRespondDispatch wire.octeonSwap8BData
      (wire.head ++ out.image wire.stack)).drop 8

/-- The request for page `j` of the range. -/
def rulePage (input : FrcOpIn) (j : Nat) : FrcOpIn where
  index := input.index + .ofNat 32 (j * maxRule)
  num := .ofNat 32 (RangeQuery.pageLength maxRule input.num.toNat j)

/-- The loop of `rule get` and of `rule cnt` over the pages. -/
def rulePages {S : Type} (use : S → List FrcRuleStat → S) (input : FrcOpIn)
    (init : S) : Option S :=
  (List.range (RangeQuery.pages maxRule input.num.toNat)).foldlM
    (fun acc j => (frcapiRuleStatGet wire filtset (rulePage input j)).map
      fun buf => use acc (ruleStatOutUnpack buf).1) init

/-- What both commands check about their arguments. -/
def RuleArgsOk (input : FrcOpIn) : Prop :=
  ¬ (input.index.toNat < 1 ∨ ruleMax < input.index.toNat) ∧
    ¬ (input.num.toNat < 1 ∨ ruleMax < input.num.toNat) ∧
    (input.index + input.num).toNat ≤ ruleMax + 1

instance (input : FrcOpIn) : Decidable (RuleArgsOk input) :=
  inferInstanceAs (Decidable (_ ∧ _))

/-- `rule get`: the entries it prints; `none` for `FRE_PARAM`. -/
def frctweakRuleGet (input : FrcOpIn) : Option (List FrcRuleStat) :=
  if RuleArgsOk input then
    rulePages wire filtset (fun printed stats => printed ++ stats) input []
  else none

/-- The sums of `rule cnt`. -/
def addStat (cnt : FrcPktStat) (stat : FrcRuleStat) : FrcPktStat :=
  ⟨cnt.pkts + stat.stat.pkts, cnt.bytes + stat.stat.bytes⟩

/-- `rule cnt`: the sums it prints; `none` for `FRE_PARAM`. -/
def frctweakRuleCnt (input : FrcOpIn) : Option FrcPktStat :=
  if RuleArgsOk input then
    rulePages wire filtset (fun cnt stats => stats.foldl addStat cnt) input
      ⟨0, 0⟩
  else none

end Tool

/-- The rules as they were added, by tag. -/
def addedRules (events : List RuleEvent) (tag : Nat) : Option FrcRule :=
  events.foldl (fun found event =>
    match event with
    | .add rule _ _ => if tag = rule.index.toNat then some rule else found
    | .del input => if input.Covers tag then none else found
    | .clearAll input => if input.Covers tag then none else found
    | .enable _ | .update | .statClear _ | .packet _ => found) none

/-- The counters of a tag, as they are reported. -/
def Filtset.reported (filtset : Filtset) (tag : Nat) : FrcPktStat :=
  ⟨.ofNat (filtset.pktNum tag % 2 ^ 32).toNat,
    .ofNat (filtset.pktBytes tag % 2 ^ 32).toNat⟩

end Barley
