/-
The data path of the card as it is built.  A work is sorted by its kind and by
the mode of its port; a packet that is recorded is measured, checked and
counted, and then its buffer is freed; on a port in the other mode it is sent to
the host.  Several cores do this at once.  They
share the words that a pass reads, each of them once, and the counters, which
are only added to.
-/
import Barley.IpcReceive
import Barley.Registers
import Barley.VlanStat
import Mathlib.Data.BitVec

namespace Barley

/-- `PROTO_IPV6`. -/
def protoIpv6 : Nat := 0x86dd

/-- `frcore_act_t`. -/
inductive DataPath.FrcoreAct where
  | debug
  | drop
  | forward
  | delay
  | unfree
  | free
deriving DecidableEq

/-- The counters of the data path: those of `frc_stat_e`, and what a port has
received from the wire and sent on to the host. -/
inductive DataStat where
  | totalRcvd (ipprt : Nat)
  | totalBytes (ipprt : Nat)
  | totalFwd (ipprt : Nat)
  | errPko (ipprt : Nat)
  | p0RxPkts
  | p1RxPkts
  | coreWqe (core : Nat)
  | workFree
  | workData
  | workUnkown
  | actDebug
  | actDrop
  | actFree
  | actForward
  | actDelay
  | actUnfree
  | pktsBelow64
  | pktsBetween64And128
  | pktsBetween128And256
  | pktsBetween256And512
  | pktsBetween512And1024
  | pktsBetween1024And1500
  | pktsBetween1500And1600
  | pktsAbove1600
  | veryShortPkts
  | veryLongPkts
  | normalPkts
  | rxErrs
  | rxPkts
  | rxBytes
  | dropPortOff
  | dropRxError
  | ipV6
  | dropIpV6
  | vlan
  | ipOption
  | dropIpOption
  | ipcDropSmacZero
  | ipcSmacOrdered
  | ipcSmacDisorder
  | ipcPktidOrdered
  | ipcPktidDisorder
  | ipcPktidRepeat
  | ipcHeadValid
  | ipcHeadInvalid
deriving DecidableEq

/-- An addition to a counter. -/
abbrev DataCount := DataStat × BitVec 64

/-- `FRCORE_STAT_INC`. -/
def DataStat.inc (stat : DataStat) : DataCount := (stat, 1)

/-- All of `ipc_misc`, except for the dumps. -/
structure IpcMiscT extends IpcMisc where
  pktidCheck : BitVec 8
  expCheck : BitVec 8

/-- What a pass finds in the words that the cores share. -/
structure IpcSeen where
  workModeOct0 : BitVec 8
  workModeOct1 : BitVec 8
  misc : IpcMiscT
  expected : IpcExpected
  instr : IpcInstr
  smac : BitVec 64
  pktid : BitVec 64

/-- A work: its kind, its port, its length, the bytes that `ip_ptr` points to,
and whether PKO takes it, should it be sent. -/
structure DataWork extends IpcWork where
  unused : Nat
  ipprt : Nat
  len : BitVec 16
  ip : List UInt8
  pkoOk : Bool

/-- What a pass does: how it ends, what it counts, what it stores in `ipc_cur`,
the VLAN tag that it checks, and the instruction that it sends. -/
structure IpcPass where
  act : DataPath.FrcoreAct
  stats : List DataCount
  smac : Option (BitVec 64)
  pktid : Option (BitVec 64)
  vlanCheck : Option VlanCheckPkt
  insertion : Option IpcInsertion

/-- A pass that ends with `FRCORE_DROP` before it has looked at the packet. -/
def IpcPass.dropped (stats : List DataCount) (stat : DataStat) : IpcPass where
  act := .drop
  stats := stats ++ [stat.inc]
  smac := none
  pktid := none
  vlanCheck := none
  insertion := none

section Packet

/-- `kinds_of_pkt_len_stat`. -/
def kindsOfPktLenStat (len : Nat) : List DataCount :=
  (if len < 60 then [DataStat.pktsBelow64.inc, DataStat.veryShortPkts.inc]
    else if 60 ≤ len ∧ len < 124 then [DataStat.pktsBetween64And128.inc]
    else if 124 ≤ len ∧ len < 252 then [DataStat.pktsBetween128And256.inc]
    else if 252 ≤ len ∧ len < 508 then [DataStat.pktsBetween256And512.inc]
    else if 508 ≤ len ∧ len < 1020 then [DataStat.pktsBetween512And1024.inc]
    else if 1020 ≤ len ∧ len < 1496 then [DataStat.pktsBetween1024And1500.inc]
    else if 1496 ≤ len ∧ len ≤ 1596 then [DataStat.pktsBetween1500And1600.inc]
    else if 1596 < len then
      [DataStat.pktsAbove1600.inc, DataStat.veryLongPkts.inc]
    else []) ++
  if 60 ≤ len ∧ len ≤ 1596 then [DataStat.normalPkts.inc] else []

/-- `psmac`, after its `swap_buff`. -/
def psmac (ether : List UInt8) : BitVec 64 :=
  .ofNat 64 (Bytes.load .big (swapBuff .big 1
    ((List.range 6).map (fun k => ether.getD (6 + k) 0) ++ [0, 0])))

/-- The check of a source address: what is counted, and what is stored. -/
def smacChecked (csmac psmac : BitVec 64) : DataStat × Option (BitVec 64) :=
  if csmac = 0 then (.ipcSmacOrdered, some psmac)
  else if psmac = csmac + 1 then (.ipcSmacOrdered, some psmac)
  else (.ipcSmacDisorder, none)

/-- `ppid`. -/
def IpcDpktHd.ppid (dpkt : IpcDpktHd) : BitVec 64 :=
  (dpkt.pidH.setWidth 64 <<< 32) ||| dpkt.pidL.setWidth 64

/-- The check of a packet id. -/
def pktidChecked (cpid ppid : BitVec 64) : DataStat × Option (BitVec 64) :=
  if cpid = 0 then
    if ppid = cpid then (.ipcPktidRepeat, none)
    else (.ipcPktidOrdered, some ppid)
  else if ppid = cpid then (.ipcPktidRepeat, none)
  else if cpid < ppid then (.ipcPktidOrdered, some ppid)
  else (.ipcPktidDisorder, none)

/-- `vlan_dist`. -/
def vlanDist (ether : List UInt8) : Bool :=
  (unpackU16 (ether.drop 12)).1 = protoVlan

variable (work : DataWork)

/-- What `frcore_vlan_check_v4` reads. -/
def DataWork.vlanPktV4 : VlanCheckPkt where
  ipprt := work.ipprt
  tci := .ofNat 16 (unpackU16 (work.ether.drop 14)).1
  pkt := .ip4 {
    sipData := .ofNat 32 (unpackU32 (work.ip.drop 12)).1
    dipData := .ofNat 32 (unpackU32 (work.ip.drop 16)).1 }

/-- What `frcore_vlan_check_v6` reads. -/
def DataWork.vlanPktV6 : VlanCheckPkt where
  ipprt := work.ipprt
  tci := .ofNat 16 (unpackU16 (work.ether.drop 14)).1
  pkt := .ip6 {
    sip6Data := .ofFn fun i => work.ip.getD (8 + i) 0
    dip6Data := .ofFn fun i => work.ip.getD (24 + i) 0 }

variable (seen : IpcSeen)

/-- The checks that are switched on, in the order of the code: of the source
address, of the expected header, and of the packet id. -/
def smacStats : List DataCount :=
  if seen.misc.smacCheck ≠ 0 then
    [(smacChecked seen.smac (psmac work.ether)).1.inc]
  else []

def headStats : List DataCount :=
  if seen.misc.expCheck ≠ 0 then
    if expCheck seen.expected.ipcExpData seen.expected.ipcExpMask
        (unpackDpkt work.ether) then [DataStat.ipcHeadValid.inc]
    else [DataStat.ipcHeadInvalid.inc]
  else []

def pktidStats : List DataCount :=
  if seen.misc.pktidCheck ≠ 0 then
    [(pktidChecked seen.pktid (unpackDpkt work.ether).ppid).1.inc]
  else []

/-- What the switch over the protocol counts, and how it ends. -/
def protocolStats : DataPath.FrcoreAct × List DataCount :=
  let protocol := ipcProtocol work.ether
  if protocol.1 = protoIpv4 then
    -- `frcore_ipc_ipv4_process`
    if (unpackIpv4Hd protocol.2).ih ≠ 5 then
      (.drop, [DataStat.ipOption.inc, DataStat.dropIpOption.inc])
    else (.free, [])
  else if protocol.1 = protoIpv6 then
    -- `frcore_ipc_ipv6_process`
    (.drop, [DataStat.ipV6.inc, DataStat.dropIpV6.inc])
  else (.free, [])

/-- The VLAN check of the switch; what it returns is not looked at. -/
def checkedVlan : Option VlanCheckPkt :=
  let protocol := ipcProtocol work.ether
  if vlanDist work.ether then
    if protocol.1 = protoIpv4 then some work.vlanPktV4
    else if protocol.1 = protoIpv6 then some work.vlanPktV6
    else none
  else none

end Packet

namespace DataPath

variable (seen : IpcSeen) (core : Nat) (work : DataWork)

/-- What a packet without errors is counted in, after its length. -/
def receivedStats : List DataCount :=
  kindsOfPktLenStat work.len.toNat ++ [DataStat.rxPkts.inc,
    (.rxBytes, work.len.setWidth 64 + 4)]

/-- The rest of `frcore_ipc_work_process`, for a packet that has passed the
first checks. -/
def ipcChecked : IpcPass where
  act := (protocolStats work).1
  stats := receivedStats work ++
    (smacStats work seen ++ headStats work seen ++ pktidStats work seen ++
      if vlanDist work.ether then [DataStat.vlan.inc] else []) ++
    (protocolStats work).2
  smac :=
    if seen.misc.smacCheck ≠ 0 then
      (smacChecked seen.smac (psmac work.ether)).2
    else none
  pktid :=
    if seen.misc.pktidCheck ≠ 0 then
      (pktidChecked seen.pktid (unpackDpkt work.ether).ppid).2
    else none
  vlanCheck := checkedVlan work
  insertion :=
    if (ipcProtocol work.ether).1 = protoIpv4 then
      frcoreIpcIpv4Process seen.instr seen.misc.toIpcMisc
        (unpackDpkt work.ether) (ipcProtocol work.ether).2
    else none

/-- `frcore_ipc_work_process`. -/
def frcoreIpcWorkProcess : IpcPass :=
  let measured := kindsOfPktLenStat work.len.toNat
  if !work.rxOn then .dropped measured .dropPortOff
  else if work.rcvError then
    .dropped (measured ++ [DataStat.rxErrs.inc]) .dropRxError
  else if seen.misc.smacCheck ≠ 0 ∧ psmac work.ether = 0 then
    .dropped (receivedStats work ++ [DataStat.rxErrs.inc]) .ipcDropSmacZero
  else ipcChecked seen work

/-- The second switch of `frcore_work_process`: what it counts, and whether it
frees the work. -/
def actStats : FrcoreAct → List DataCount × Bool
  | .debug => ([DataStat.actDebug.inc], false)
  | .free => ([DataStat.actFree.inc, DataStat.workFree.inc], true)
  | .drop => ([DataStat.actDrop.inc, DataStat.workFree.inc], true)
  | .forward => ([DataStat.actForward.inc, DataStat.workFree.inc], true)
  | .delay => ([DataStat.actDelay.inc], false)
  | .unfree => ([DataStat.actUnfree.inc], false)

/-- What has become of the buffer of a work: `frcore_work_free` has freed and
counted it, PKO frees it, it has been freed on the way to the host, or it is
kept. -/
inductive Fate where
  | freed
  | forwarded
  | discarded
  | kept
deriving DecidableEq

/-- What `frcore_work_process` counts, and what becomes of the buffer. -/
structure WorkPass where
  stats : List DataCount
  fate : Fate

def WorkPass.finish (stats : List DataCount) (act : FrcoreAct) : WorkPass where
  stats := stats ++ (actStats act).1
  fate := if (actStats act).2 then .freed else .kept

/-- `frcore_forward_packet_to_host`.  The packet has been counted as received
before, and is once more. -/
def frcoreForwardPacketToHost : WorkPass :=
  let received := [(DataStat.totalRcvd work.ipprt, 1),
    (.totalBytes work.ipprt, work.len.setWidth 64)]
  if !work.rxOn then ⟨received, .discarded⟩
  else if work.pkoOk then
    ⟨received ++ [(.totalFwd work.ipprt, 1)], .forwarded⟩
  else ⟨received ++ [(.errPko work.ipprt, 1)], .discarded⟩

/-- `work_mode_oct0` or `work_mode_oct1`. -/
def workMode : BitVec 8 :=
  if work.ipprt = 0 then seen.workModeOct0 else seen.workModeOct1

/-- `frcore_work_process`. -/
def frcoreWorkProcess : WorkPass :=
  match work.unused with
  | 0 => -- `FRCORE_WORK_PKT`
      let stats := [(DataStat.coreWqe core).inc, (.totalRcvd work.ipprt, 1),
        (.totalBytes work.ipprt, work.len.setWidth 64), DataStat.workData.inc,
        if work.ipprt = 0 then DataStat.p0RxPkts.inc else DataStat.p1RxPkts.inc]
      if workMode seen work = 0 then
        let pass := frcoreIpcWorkProcess seen work
        .finish (stats ++ pass.stats) pass.act
      else
        let pass := frcoreForwardPacketToHost work
        ⟨stats ++ pass.stats, pass.fate⟩
  | 6 => .finish [] .unfree -- `FRCORE_WORK_SSN_AGE`
  | _ => .finish [DataStat.workUnkown.inc] .drop

end DataPath

end Barley
