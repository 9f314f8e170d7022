/-
The rule commands of the card, and what it does with a packet when rules are
on.  The commands edit the store; a packet is looked up in the tables of the
last build, counted under the tag it gets, and handed on with that tag.
-/
import Barley.MppTuple
import Barley.RfcRebuild
import Barley.SimplePackets
import Barley.StatQueries

namespace Barley

/-- `PROTO_TCP`. -/
def protoTcp : Nat := 0x06

/-- `PROTO_UDP`. -/
def protoUdp : Nat := 0x11

/-- The counters `stat_rule_*`. -/
structure RuleStats where
  malformedPacket : BitVec 64
  matchedPkts : BitVec 64
  matchedBytes : BitVec 64
  notMatchedPkts : BitVec 64
  notMatchedBytes : BitVec 64
deriving DecidableEq, Repr

/-- What the rule commands and the packets share. -/
structure RuleState where
  ruleEnable : UInt8
  acl : MppAclFiltset
  stats : RuleStats

/-- The state after `acl_init`. -/
def RuleState.boot : RuleState :=
  ⟨0, .ofFiltset emptyFiltset, ⟨0, 0, 0, 0, 0⟩⟩

section Commands

variable (st : RuleState)

def RuleState.withFiltset (filtset : Filtset) : RuleState :=
  { st with acl := { st.acl with filtset := filtset } }

/-- `frcore_cmd_rule_enable`. -/
def frcoreCmdRuleEnable (enable : UInt8) : RuleState :=
  { st with ruleEnable := enable }

/-- The arguments that `frcore_cmd_rule_add` passes on. -/
def FrcRule.args (rule : FrcRule) : RuleArgs where
  sip := rule.sip.toNat
  dip := rule.dip.toNat
  sp := rule.sp.toNat
  dp := rule.dp.toNat
  protocol := rule.proto.toNat
  op := rule.op.toNat
  action := rule.action.toNat
  ruleType := rule.ruleType.toNat
  ruleSource := rule.ruleSource.toNat
  sip_lt := rule.sip.toNat_lt_size
  dip_lt := rule.dip.toNat_lt_size
  sp_lt := rule.sp.toNat_lt_size
  dp_lt := rule.dp.toNat_lt_size
  protocol_lt := rule.proto.toNat_lt_size
  op_lt := rule.op.toNat_lt_size
  action_lt := rule.action.toNat_lt_size
  ruleType_lt := rule.ruleType.toNat_lt_size
  ruleSource_lt := rule.ruleSource.toNat_lt_size

/-- `frcore_cmd_rule_add`. -/
def frcoreCmdRuleAdd (rule : FrcRule) : RuleState :=
  st.withFiltset (aclSetfilter st.acl.filtset rule.index.toNat rule.args)

/-- A round of the loops of `frcore_cmd_rule_del` and
`frcore_cmd_rule_clear_all`: the last return value, the number of rules that
were deleted, and the store. -/
def ruleDelRound (tagid : Nat) :
    Fre × BitVec 16 × Filtset → Fre × BitVec 16 × Filtset
  | (_, num, filtset) =>
      let (rv, next) := aclDeleteOneFilterByTagid filtset tagid
      (rv, if rv = .success then num + 1 else num, next)

def ruleDelLoop (filtset : Filtset) (input : FrcOpIn) :
    Fre × BitVec 16 × Filtset :=
  (List.range input.count).foldl (fun acc i => ruleDelRound (input.tagid i) acc)
    (.success, 0, filtset)

/-- `frcore_cmd_rule_del`: the return value of the last round, and the number
of rules that were deleted. -/
def frcoreCmdRuleDel (input : FrcOpIn) : (Fre × BitVec 16) × RuleState :=
  let (rv, num, filtset) := ruleDelLoop st.acl.filtset input
  ((rv, num), st.withFiltset filtset)

/-- `acl_getfilter_count`, a `uint16_t`. -/
def aclGetfilterCount (filtset : Filtset) : BitVec 16 :=
  .ofNat 16 filtset.numFilters

/-- `frcore_cmd_rule_clear_all`: the number of rules there were, or `none` for
`FRE_FAIL` when some are left. -/
def frcoreCmdRuleClearAll (input : FrcOpIn) : Option (BitVec 16) × RuleState :=
  let num := aclGetfilterCount st.acl.filtset
  let filtset := (ruleDelLoop st.acl.filtset input).2.2
  (if aclGetfilterCount filtset = 0 then some num else none,
    st.withFiltset filtset)

/-- `frcore_cmd_rule_update`. -/
def frcoreCmdRuleUpdate : Build RuleState :=
  (preAclLookupByTuple st.acl).map fun (ret, acl) =>
    (ret, { st with acl := acl })

/-- `acl_initfilter_statistics_by_tagid`; `none` when the tag has no
counters. -/
def aclInitfilterStatisticsByTagid (filtset : Filtset) (tagid : Nat) :
    Option Filtset :=
  if tagid < mppMaxRfcStat then
    some { filtset with
      pktNum := Function.update filtset.pktNum tagid 0
      pktBytes := Function.update filtset.pktBytes tagid 0 }
  else none

/-- `frcore_cmd_rule_stat_clear`: the number of rounds. -/
def frcoreCmdRuleStatClear (input : FrcOpIn) :
    Option (BitVec 16 × RuleState) :=
  ((List.range input.count).foldlM (fun filtset i =>
      aclInitfilterStatisticsByTagid filtset (input.tagid i))
    st.acl.filtset).map fun filtset =>
      (.ofNat 16 input.count, st.withFiltset filtset)

end Commands

/-- What `frcore_rule_process` is called with.  The pointers are given as
offsets from `eth_ptr`, and `data` are the bytes behind it. -/
structure RuleWork where
  len : UInt16
  tag : UInt32
  data : Nat → UInt8
  ipPtr : Nat
  udpPtr : Nat
  ipPaylen : UInt16
  smac : UInt64
  dmac : UInt64

namespace RuleWork

variable (work : RuleWork)

/-- A field of `width` bytes in the order of the network, which is the card's
own. -/
def field (ptr width : Nat) : Nat :=
  Bytes.load .big (Ring.read work.data ptr width)

def protocol : Nat := work.field (work.ipPtr + 9) 1

def ihl : Nat := work.field work.ipPtr 1 % 16

def totLen : Nat := work.field (work.ipPtr + 2) 2

def doff : Nat := work.field (work.udpPtr + 12) 1 / 16

/-- The tuple of the packet; its second word is cleared first. -/
def tuple : MppTuple where
  sip := .ofNat 32 (work.field (work.ipPtr + 12) 4)
  dip := .ofNat 32 (work.field (work.ipPtr + 16) 4)
  sp := .ofNat 16 (work.field work.udpPtr 2)
  dp := .ofNat 16 (work.field (work.udpPtr + 2) 2)
  proto := .ofNat 8 work.protocol
  sessionType := 0
  ipif := 0
  rsv := 0

/-- The headers of a TCP packet are longer than it is. -/
def Malformed : Prop :=
  work.tuple.proto.toNat = protoTcp ∧
    work.totLen < (work.ihl + work.doff) <<< 2

instance : Decidable work.Malformed := inferInstanceAs (Decidable (_ ∧ _))

/-- The header for the host. -/
def hdr : FrcDmaHdrT :=
  { (⟨0, 0, 0, 0, 0, 0, 0, 0, 0, 0, 0, 0, 0, 0, 0⟩ : FrcDmaHdrT) with
    sip := .ofNat (work.field (work.ipPtr + 12) 4)
    dip := .ofNat (work.field (work.ipPtr + 16) 4)
    sport := .ofNat (work.field work.udpPtr 2)
    dport := .ofNat (work.field (work.udpPtr + 2) 2)
    protocol := .ofNat work.tuple.proto.toNat
    hash := work.tag &&& 0xffffff
    pktNum := 1
    totalPaylen := work.len }

/-- The record for the host. -/
def info : FrcDmaPktInfoT :=
  let base : FrcDmaPktInfoT := ⟨0, 0, 0, 0, 0, work.smac, work.dmac⟩
  if work.tuple.proto.toNat = protoTcp then
    { base with
      dataOffset := .ofNat (work.udpPtr + work.doff <<< 2)
      payloadLen := work.ipPaylen - .ofNat (work.doff <<< 2)
      sequence := .ofNat (work.field (work.udpPtr + 4) 4)
      ackSeq := .ofNat (work.field (work.udpPtr + 8) 4) }
  else if work.tuple.proto.toNat = protoUdp then
    { base with
      dataOffset := .ofNat (work.udpPtr + 8)
      payloadLen := work.ipPaylen - 8 }
  else base

/-- The packet for the host, with all its bytes. -/
def packet : SimplePacket where
  header := work.hdr
  payload := Ring.read work.data 0 work.len.toNat
  info := work.info
  totalPaylen_eq := (Ring.length_read ..).symm

end RuleWork

/-- The halves and fields that `frcore_rule_process` looks up. -/
def MppTuple.aclTuple (tuple : MppTuple) : AclTuple where
  siph := tuple.sip.toNat / 65536
  sipl := tuple.sip.toNat % 65536
  diph := tuple.dip.toNat / 65536
  dipl := tuple.dip.toNat % 65536
  sp := tuple.sp.toNat
  dp := tuple.dp.toNat
  proto := tuple.proto.toNat
  siph_lt := Nat.div_lt_of_lt_mul tuple.sip.isLt
  sipl_lt := Nat.mod_lt _ (by decide)
  diph_lt := Nat.div_lt_of_lt_mul tuple.dip.isLt
  dipl_lt := Nat.mod_lt _ (by decide)
  sp_lt := tuple.sp.isLt
  dp_lt := tuple.dp.isLt
  proto_lt := tuple.proto.isLt

/-- `acl_statistic_hit` and `acl_pkt_bytes_add`, on 64 bit counters. -/
def Filtset.hit (filtset : Filtset) (tag len : Nat) : Filtset :=
  { filtset with
    pktNum := Function.update filtset.pktNum tag
      ((filtset.pktNum tag + 1).bmod (2 ^ 64))
    pktBytes := Function.update filtset.pktBytes tag
      ((filtset.pktBytes tag + len).bmod (2 ^ 64)) }

/-- What becomes of a packet: rules are off, it is malformed, it is handed on
with a tag, it has the tag of no rule, or no rule matches. -/
inductive RuleVerdict where
  | off
  | malformed
  | submitted (packet : SimplePacket) (tag : UInt16)
  | unused
  | notMatched

/-- `frcore_rule_process`; its caller does not look at what it returns. -/
def frcoreRuleProcess (st : RuleState) (work : RuleWork) :
    RuleVerdict × RuleState :=
  if st.ruleEnable = 0 then (.off, st)
  else if work.Malformed then
    (.malformed, { st with stats := { st.stats with
      malformedPacket := st.stats.malformedPacket + 1 } })
  else
    let tag := aclLookupByTuple st.acl work.tuple.aclTuple
    if tag ≠ 0 then
      if tag ≠ mppMaxFilters - 1 then
        (.submitted work.packet (.ofNat tag),
          { st.withFiltset (st.acl.filtset.hit tag work.len.toNat) with
            stats := { st.stats with
              matchedPkts := st.stats.matchedPkts + 1
              matchedBytes := st.stats.matchedBytes +
                .ofNat 64 work.len.toNat } })
      else (.unused, st)
    else
      (.notMatched, { st with stats := { st.stats with
        notMatchedPkts := st.stats.notMatchedPkts + 1
        notMatchedBytes := st.stats.notMatchedBytes +
          .ofNat 64 work.len.toNat } })

/-- A range of tags as the host checks it. -/
structure RuleRange extends FrcOpIn where
  start_le : aclIndexStart ≤ index.toNat
  stop_le : index.toNat + num.toNat ≤ aclMax + 1

/-- A command that changes the state, or a packet.  Rules are added with tags
within `ACL_INDEX_START` and `ACL_MAX`. -/
inductive RuleEvent where
  | enable (value : UInt8)
  | add (rule : FrcRule) (hstart : aclIndexStart ≤ rule.index.toNat)
      (hmax : rule.index.toNat ≤ aclMax)
  | del (input : RuleRange)
  | clearAll (input : RuleRange)
  | update
  | statClear (input : RuleRange)
  | packet (work : RuleWork)

/-- The state after an event; `none` when it writes outside an array. -/
def RuleEvent.apply (st : RuleState) : RuleEvent → Option RuleState
  | .enable value => some (frcoreCmdRuleEnable st value)
  | .add rule _ _ => some (frcoreCmdRuleAdd st rule)
  | .del input => some (frcoreCmdRuleDel st input.toFrcOpIn).2
  | .clearAll input => some (frcoreCmdRuleClearAll st input.toFrcOpIn).2
  | .update => (frcoreCmdRuleUpdate st).map Prod.snd
  | .statClear input =>
      (frcoreCmdRuleStatClear st input.toFrcOpIn).map Prod.snd
  | .packet work => some (frcoreRuleProcess st work).2

/-- The state after events, the first one first. -/
def runRuleEvents (st : RuleState) (events : List RuleEvent) :
    Option RuleState :=
  events.foldlM RuleEvent.apply st

end Barley
