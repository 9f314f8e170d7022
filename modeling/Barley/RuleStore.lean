/-
The rule store of the classifier: a fixed array of filters kept in tag order.
Inserting and deleting shift a suffix of the array slot by slot, together with
the hit counters of the tags that pass by.
-/
import Barley.FrcTypes
import Barley.RfcTables

namespace Barley

attribute [local instance] neZero_dims

/-- `ACL_PROTOCOL_ANY`. -/
def aclProtocolAny : Nat := 0

/-- The arguments of `acl_setfilter` after the tag, each within its C type. -/
structure RuleArgs where
  sip : Nat
  dip : Nat
  sp : Nat
  dp : Nat
  protocol : Nat
  op : Nat
  action : Nat
  ruleType : Nat
  ruleSource : Nat
  sip_lt : sip < 2 ^ 32
  dip_lt : dip < 2 ^ 32
  sp_lt : sp < 2 ^ 16
  dp_lt : dp < 2 ^ 16
  protocol_lt : protocol < 2 ^ 16
  op_lt : op < 2 ^ 16
  action_lt : action < 2 ^ 16
  ruleType_lt : ruleType < 2 ^ 16
  ruleSource_lt : ruleSource < 2 ^ 16

/-- Two bytes as the half of an address. -/
def joinBytes (first second : Nat) : Nat :=
  (first <<< 8 + second) % 2 ^ 32

/-- `acl_readiprange`: the ranges of the high and of the low half.  Address 0
has mask 0 and every other address mask 32, and the bytes behind the mask are
filled with 0 for the start and with 255 for the end of the range. -/
def aclReadiprange (ip : Nat) : (Nat × Nat) × (Nat × Nat) :=
  let mask := if ip ≠ 0 then 32 else 0
  let trange : Nat → Nat := fun i => (ip >>> ((3 - i) * 8)) &&& 0xff
  let mask := 32 - mask
  let masklit1 := mask / 8
  let masklit2 := mask % 8
  let masklit3 := 1 <<< masklit2 - 1
  let filled : Nat → (Nat → Nat) → Nat → Nat := fun byte ptrange i =>
    if 3 < i + masklit1 then byte else ptrange i
  let start := filled 0 trange
  let start := if masklit2 ≠ 0 then
      Function.update start (3 - masklit1)
        (start (3 - masklit1) &&& (2 ^ 32 - 1 - masklit3))
    else start
  let stop := filled 255 start
  let stop := if masklit2 ≠ 0 then
      Function.update stop (3 - masklit1) (stop (3 - masklit1) ||| masklit3)
    else stop
  ((joinBytes (start 0) (start 1), joinBytes (stop 0) (stop 1)),
    (joinBytes (start 2) (start 3), joinBytes (stop 2) (stop 3)))

/-- `acl_ReadPort`: port 0 stands for every port. -/
def aclReadPort (port : Nat) : Nat × Nat :=
  if port ≠ 0 then (port, port) else (0, 65535)

/-- `acl_ReadProtocol`: any protocol is the range of an 8 bit field. -/
def aclReadProtocol (proto : Nat) : Nat × Nat :=
  if proto = aclProtocolAny then (0, 255) else (proto, proto)

/-- The ranges `setfilter` stores for its arguments. -/
def RuleArgs.dim (args : RuleArgs) : Fin 7 → Nat × Nat :=
  ![(aclReadiprange args.sip).1, (aclReadiprange args.sip).2,
    (aclReadiprange args.dip).1, (aclReadiprange args.dip).2,
    aclReadPort args.sp, aclReadPort args.dp, aclReadProtocol args.protocol]

/-- `setfilter`: every field of the slot is written; a covered filter is not
counted again. -/
def setfilter (filtset : Filtset) (index targetid : Nat) (args : RuleArgs)
    (cover : Bool) : Filtset :=
  { numFilters :=
      if cover then filtset.numFilters else filtset.numFilters + 1
    filtArr := Function.update filtset.filtArr index
      { cost := targetid
        sync := aclNosync
        state := aclEnable
        op := args.op
        action := args.action
        ruleType := args.ruleType
        ruleSource := args.ruleSource
        dim := args.dim }
    pktNum := Function.update filtset.pktNum targetid 0
    pktBytes := Function.update filtset.pktBytes targetid 0 }

/-- The assignments of both shifting loops: the counters of the tag that is
overwritten take the values of the tag that moves in, then the slot does,
field by field. -/
def moveFilter (filtset : Filtset) (dst src : Nat) : Filtset :=
  let slot := filtset.filtArr dst
  let moved := filtset.filtArr src
  { filtset with
    filtArr := Function.update filtset.filtArr dst
      { slot with
        cost := moved.cost
        sync := moved.sync
        state := moved.state
        op := moved.op
        action := moved.action
        ruleType := moved.ruleType
        ruleSource := moved.ruleSource
        dim := fun m => ((moved.dim m).1, (moved.dim m).2) }
    pktNum := Function.update filtset.pktNum slot.cost
      (filtset.pktNum moved.cost)
    pktBytes := Function.update filtset.pktBytes slot.cost
      (filtset.pktBytes moved.cost) }

/-- The loop of `acl_setfilter` that opens slot `i`: `j` runs from the last
used slot down to `i`. -/
def shiftBack (filtset : Filtset) (i : Nat) : Filtset :=
  let count := filtset.numFilters
  (List.range (count - i)).foldl (fun filtset k =>
    let j := count - 1 - k
    moveFilter filtset (j + 1) j) filtset

/-- `acl_setfilter`. -/
def aclSetfilter (filtset : Filtset) (targetid : Nat) (args : RuleArgs) :
    Filtset :=
  let count := filtset.numFilters
  match (List.range count).find? fun i =>
      targetid < (filtset.filtArr i).cost ∨
        targetid = (filtset.filtArr i).cost with
  | some i =>
      if targetid < (filtset.filtArr i).cost then
        setfilter (shiftBack filtset i) i targetid args false
      else setfilter filtset i targetid args true
  | none => setfilter filtset count targetid args false

/-- A filter with every field zero. -/
def clearedFilter : Filter :=
  ⟨0, aclNosync, aclUnset, 0, 0, 0, 0, fun _ => (0, 0)⟩

/-- `acl_initOneFilter_by_index`. -/
def aclInitOneFilterByIndex (filtset : Filtset) (index : Nat) : Filtset :=
  { filtset with
    filtArr := Function.update filtset.filtArr index clearedFilter
    pktNum := Function.update filtset.pktNum (filtset.filtArr index).cost 0
    pktBytes := Function.update filtset.pktBytes
      (filtset.filtArr index).cost 0 }

/-- `move_Forward_Filter_from_index`: close the gap at `index` and clear the
last used slot. -/
def moveForwardFilterFromIndex (filtset : Filtset) (index : Nat) : Filtset :=
  let count := filtset.numFilters
  aclInitOneFilterByIndex
    ((List.range' index (count - 1 - index)).foldl
      (fun filtset j => moveFilter filtset j (j + 1)) filtset) (count - 1)

/-- `acl_DeleteOneFilter_by_tagid`. -/
def aclDeleteOneFilterByTagid (filtset : Filtset) (tagid : Nat) :
    Fre × Filtset :=
  let count := filtset.numFilters
  match (List.range count).find? fun i =>
      tagid = (filtset.filtArr i).cost with
  | some i =>
      let moved :=
        if i = count - 1 then aclInitOneFilterByIndex filtset i
        else moveForwardFilterFromIndex filtset i
      (.success, { moved with numFilters := moved.numFilters - 1 })
  | none => (.notfound, filtset)

/-- `acl_enable_one_filter_by_tagid`: 1 when the tag was found. -/
def aclEnableOneFilterByTagid (filtset : Filtset) (targetid enable : Nat) :
    Nat × Filtset :=
  match (List.range filtset.numFilters).find? fun i =>
      targetid = (filtset.filtArr i).cost with
  | some i => (1, { filtset with
      filtArr := Function.update filtset.filtArr i
        { filtset.filtArr i with state := enable } })
  | none => (0, filtset)

/-- `acl_enable_all_filter`. -/
def aclEnableAllFilter (filtset : Filtset) (enable : Nat) : Nat × Filtset :=
  (1, { filtset with
    filtArr := fun i =>
      if i < filtset.numFilters then
        { filtset.filtArr i with state := enable }
      else filtset.filtArr i })

/-- What `acl_getfilter_by_tagid` writes through its pointers. -/
structure FilterInfo where
  rulenum : Nat
  state : Nat
  sync : Nat
  sip : Nat
  dip : Nat
  sp : Nat
  dp : Nat
  protocol : Nat
  pkts : Nat
  bytes : Nat
  op : Nat
  action : Nat
  ruleType : Nat
  ruleSource : Nat
deriving DecidableEq, Repr

/-- `getfileter`: the fields are read back from the lower ends of the
ranges. -/
def getfileter (filt : Filter) : Nat × Nat × Nat × Nat × Nat :=
  let ip := fun high low : Nat =>
    ((high <<< 16) &&& 0xFFFF0000) ||| (low &&& 0x0000FFFF)
  (ip (filt.dim 0).1 (filt.dim 1).1, ip (filt.dim 2).1 (filt.dim 3).1,
    (filt.dim 4).1 &&& 0x0000FFFF, (filt.dim 5).1 &&& 0x0000FFFF,
    (filt.dim 6).1 &&& 0x0000FFFF)

/-- `acl_getfilter_by_tagid`; `none` is `FRE_FAIL`.  The counters are returned
as `uint32_t`. -/
def aclGetfilterByTagid (filtset : Filtset) (tagid : Nat) :
    Option FilterInfo :=
  ((List.range filtset.numFilters).find? fun i =>
      tagid = (filtset.filtArr i).cost).map fun ruleid =>
    let filt := filtset.filtArr ruleid
    let (sip, dip, sp, dp, protocol) := getfileter filt
    { rulenum := ruleid
      state := filt.state
      sync := filt.sync
      sip := sip
      dip := dip
      sp := sp
      dp := dp
      protocol := protocol
      pkts := (filtset.pktNum tagid % 2 ^ 32).toNat
      bytes := (filtset.pktBytes tagid % 2 ^ 32).toNat
      op := filt.op
      action := filt.action
      ruleType := filt.ruleType
      ruleSource := filt.ruleSource }

end Barley
