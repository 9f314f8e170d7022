/-
The commands that report the entries of a table over a range of indexes.  The
host sends the first index and the number of indexes, and the answer has room
for a few entries only.
-/
import Barley.RangeQuery
import Barley.RuleStore
import Barley.TwoTupleTable
import Barley.CmdStructs
import Barley.CoreCmd

namespace Barley

open RangeQuery (Got)

/-- `MAX_RULE`, the entries of an output array. -/
def maxRule : Nat := 4

/-- `MPP_MAX_RFC_STAT`, the counters of a rule store. -/
def mppMaxRfcStat : Nat := 2048

/-- `stat_vlan_id_max`. -/
def statVlanIdMax : Nat := 520

/-- `frc_rule_op_in_t` and `frc_acl_op_in_t`. -/
structure FrcOpIn where
  index : BitVec 32
  num : BitVec 32

namespace FrcOpIn

/-- The rounds of the loop: the counter is compared with `(int) num`. -/
def count (input : FrcOpIn) : Nat := input.num.toInt.toNat

/-- The tag of a round, a `uint16_t`. -/
def tagid (input : FrcOpIn) (i : Nat) : Nat :=
  ((input.index + BitVec.ofNat 32 i).setWidth 16).toNat

end FrcOpIn

/-- What the three commands put into their output, with the length of the
answer. -/
structure StatOut (E : Type) where
  num : Nat
  stat : List E
  olen : Nat

/-- The loop of the three commands and the copy of `size` bytes into the
answer; `none` when something is read or written outside its array. -/
def statGet {E : Type} (size : Nat) (get : Nat → Got E) (input : FrcOpIn) :
    Option (StatOut E) :=
  (RangeQuery.collect (fun i => get (input.tagid i)) maxRule []
      (List.range input.count)).bind fun stat =>
    if size ≤ frcCmdRespondDataSz then some ⟨stat.length, stat, size⟩
    else none

section Rules

/-- `sizeof(frc_rule_stat_out_t)`. -/
def sizeofRuleStatOut : Nat := 4 + maxRule * 32

/-- The entry of the output for a rule. -/
def FilterInfo.toStat (info : FilterInfo) (tagid : Nat) : FrcRuleStat where
  rule :=
    { ruleSource := .ofNat info.ruleSource
      ruleType := .ofNat info.ruleType
      action := .ofNat info.action
      op := .ofNat info.op
      sip := .ofNat info.sip
      dip := .ofNat info.dip
      sp := .ofNat info.sp
      dp := .ofNat info.dp
      proto := .ofNat info.protocol
      index := .ofNat tagid }
  stat := ⟨.ofNat info.pkts, .ofNat info.bytes⟩

/-- The search for a tag stays in the filter array, and the counters of the tag
are in theirs. -/
def Filtset.ReadsInside (filtset : Filtset) (tagid : Nat) : Prop :=
  match aclGetfilterByTagid filtset tagid with
  | some info => info.rulenum < mppMaxFilters ∧ tagid < mppMaxRfcStat
  | none => filtset.numFilters ≤ mppMaxFilters

instance (filtset : Filtset) (tagid : Nat) :
    Decidable (filtset.ReadsInside tagid) := by
  unfold Filtset.ReadsInside
  split <;> infer_instance

/-- A round of `frcore_cmd_rule_stat_get`. -/
def ruleStatRound (filtset : Filtset) (tagid : Nat) : Got FrcRuleStat :=
  if filtset.ReadsInside tagid then
    match aclGetfilterByTagid filtset tagid with
    | some info => .entry (info.toStat tagid)
    | none => .absent
  else .outside

/-- `frcore_cmd_rule_stat_get`. -/
def frcoreCmdRuleStatGet (filtset : Filtset) (input : FrcOpIn) :
    Option (StatOut FrcRuleStat) :=
  statGet sizeofRuleStatOut (ruleStatRound filtset) input

end Rules

section TwoTuples

/-- `sizeof(frc_acl_stat_out_t)`. -/
def sizeofAclStatOut : Nat := 4 + maxRule * 32

/-- The entry of the output for a two-tuple rule; the reserved word is not
written. -/
def TwoTupleFilter.toStat (filter : TwoTupleFilter) (tagid : Nat) :
    FrcAclStat where
  acl :=
    { aclSource := .ofNat filter.aclSource
      aclType := .ofNat filter.aclType
      action := .ofNat filter.action
      op := .ofNat filter.op
      oneTuple := .ofNat filter.oneTuple
      proto := .ofNat filter.proto
      index := .ofNat tagid
      hash := .ofNat filter.hash
      reserved := 0 }
  stat := ⟨.ofNat filter.pktNum, .ofNat filter.pktBytes⟩

/-- `acl_get_one_filter`: the entry of a tag is read before anything else. -/
def aclGetOneFilter (acl : FrcoreAcl) (index : Nat) : Got FrcAclStat :=
  if index < 1 ∨ frcoreMaxFilters < index then .outside
  else if (acl.entry index).enable = 0 then .absent
  else
    match aclGetHashTable (acl.entry index).aclType (acl.entry index).hash with
    | none => .absent
    | some _ => .entry ((acl.entry index).toStat index)

/-- `frcore_cmd_acl_stat_get`. -/
def frcoreCmdAclStatGet (acl : FrcoreAcl) (input : FrcOpIn) :
    Option (StatOut FrcAclStat) :=
  statGet sizeofAclStatOut (aclGetOneFilter acl) input

/-- `frc_acl_hash_table_t`. -/
structure FrcAclHashTable where
  hash : UInt32
  bucketDepth : UInt32
  totalCell : UInt32
  delCell : UInt32
deriving DecidableEq, Repr

/-- `frc_acl_hash_table_op_in_t`. -/
structure FrcAclHashTableOpIn extends FrcOpIn where
  aclType : BitVec 32

/-- `sizeof(frc_acl_hash_table_stat_out_t)`. -/
def sizeofAclHashTableStatOut : Nat := 8 + maxRule * 16

/-- The entry of the output for a bucket. -/
def AclHashTable.toStat (bucket : AclHashTable) (tagid : Nat) :
    FrcAclHashTable :=
  ⟨.ofNat tagid, .ofNat bucket.bucketDepth, .ofNat bucket.totalCell,
    .ofNat bucket.delCell⟩

/-- The bucket of a kind that `acl_get_one_hash_table` reads, if there is one
with that number. -/
def FrcoreAcl.bucketStat (acl : FrcoreAcl) (aclType tagid : Nat) :
    Option FrcAclHashTable :=
  (aclGetHashTable aclType tagid).map fun slot =>
    (acl.aclHashTable slot).toStat tagid

/-- `acl_get_one_hash_table`: numbers that are too large are refused, and the
kind of the request is cut to a `uint16_t`. -/
def aclGetOneHashTable (acl : FrcoreAcl) (aclType : BitVec 32) (tagid : Nat) :
    Got FrcAclHashTable :=
  match acl.bucketStat (aclType.setWidth 16).toNat tagid with
  | none => .absent
  | some stat => .entry stat

/-- `frcore_cmd_acl_hash_table_get`. -/
def frcoreCmdAclHashTableGet (acl : FrcoreAcl) (input : FrcAclHashTableOpIn) :
    Option (StatOut FrcAclHashTable) :=
  statGet sizeofAclHashTableStatOut (aclGetOneHashTable acl input.aclType)
    input.toFrcOpIn

end TwoTuples

section Vlans

/-- `frc_vlan_op_in_t`. -/
structure FrcVlanOpIn extends FrcOpIn where
  port : BitVec 32

/-- Where the counters of the port begin. -/
def FrcVlanOpIn.cntOffset (input : FrcVlanOpIn) : Nat :=
  if input.port = 16 then statVlanIdMax / 2 else 0

/-- The counter that round `i` reads. -/
def FrcVlanOpIn.slot (input : FrcVlanOpIn) (i : Nat) : Nat :=
  (input.index + BitVec.ofNat 32 i + BitVec.ofNat 32 input.cntOffset).toNat

/-- `frcore_cmd_vlan_check_get_stat`: the counters and the length of the
answer, a `uint16_t`. -/
def frcoreCmdVlanCheckGetStat (vlanIdStat : Nat → UInt64)
    (input : FrcVlanOpIn) : Option (List UInt64 × BitVec 16) :=
  (RangeQuery.collect (fun i =>
      if input.slot i < statVlanIdMax then .entry (vlanIdStat (input.slot i))
      else .outside) (frcCmdRespondDataSz / 8) []
    (List.range input.num.toNat)).map fun stat =>
      (stat, input.num.setWidth 16 * 8)

end Vlans

end Barley
