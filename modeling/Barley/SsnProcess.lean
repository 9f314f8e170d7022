/-
The two users of the session table: a TCP packet finds its session or makes
one, and a timer that fires ages its session and takes it out when it is idle.
-/
import Barley.SsnCounter
import Barley.TcpErasure

namespace Barley

open Linked

/-- What the packet loop does with a packet afterwards. -/
inductive FrcoreAct where
  | drop
  | unfree
deriving DecidableEq, Repr

/-- A packet as `frcore_tcp_process` reads it; the direction is not known
yet. -/
structure TcpWork where
  sip : BitVec 32
  dip : BitVec 32
  sp : BitVec 16
  dp : BitVec 16
  pkt : IpTcpPacket

/-- The tuple that `frcore_tcp_process` fills in. -/
def TcpWork.tuple (work : TcpWork) : MppTuple where
  sip := work.sip
  dip := work.dip
  sp := work.sp
  dp := work.dp
  proto := BitVec.ofNat 8 work.pkt.protocol
  sessionType := 0
  ipif := 0
  rsv := 0

/-- The action of a session: the four bits above `epif`. -/
def MppSsnKey.action (key : MppSsnKey) : BitVec 4 :=
  key.data1.extractLsb' 5 4

/-- `MPP_SSN_ACTION_TCPFLOWREC`. -/
def mppSsnActionTcpflowrec : BitVec 4 := 0x8

/-- `tcp_flow_recovery`, without the buffers: what `reass_tcp` does if it is
called. -/
def recoverTcp (disorderDepth : Nat) (ssn : MppSsn) (pkt : IpTcpPacket) :
    Option ReassResult :=
  if pkt.protocol = 0x06 then
    if pkt.dataLen = 0 ∧ ¬ pkt.segment.has (thSyn ||| thFin ||| thRst) then none
    else some (reassTcp disorderDepth ssn pkt.segment)
  else none

/-- `tcp_flow_flush_lock`, without the buffers. -/
def flushLock (ssn : MppSsn) : MppSsn :=
  { ssn with
    positiveData := { (tcpFlowFlush ssn.positiveData).1 with rev := false }
    negativeData := { (tcpFlowFlush ssn.negativeData).1 with rev := false } }

theorem tcpFlowRecovery_erase (env : Nat → SubmitEnv) (disorderDepth : Nat)
    (ssn : OwnedSsn) (pkt : IpTcpPacket) (te work : Nat) (run : SubmitRun) :
    (tcpFlowRecovery env disorderDepth ssn pkt te work run).1.erase =
      (recoverTcp disorderDepth ssn.erase pkt).elim ssn.erase
        ReassResult.ssn := by
  rw [tcpFlowRecovery, recoverTcp]
  split
  · split
    · rfl
    · exact reassOwned_erase env disorderDepth ssn pkt.segment te work run
  · rfl

theorem tcpFlowFlushLock_erase (env : Nat → SubmitEnv) (ssn : OwnedSsn)
    (run : SubmitRun) :
    (tcpFlowFlushLock env ssn run).1.erase = flushLock ssn.erase :=
  rfl

/-- `ssn_execute_packet`.  A `FIN` or `RST` lets the session expire at the next
timer. -/
def SsnNode.executePacket (disorderDepth : Nat) (node : SsnNode)
    (pkt : IpTcpPacket) : SsnNode :=
  if node.good then
    let node := { node with ttl := node.age }
    if node.key.action = mppSsnActionTcpflowrec then
      match recoverTcp disorderDepth node.flows pkt with
      | none => node
      | some result =>
          { node with
            flows := result.ssn
            ttl := if result.outcome = .purge then 0 else node.ttl }
    else node
  else node

/-- How the calls end that the ageing of a session makes. -/
structure AgeEnv where
  timerOk : Bool
  member : Bool

section Process

-- The buffers of the pool, the hash of a sorted tuple, the depth of the queues
-- and the age of a session.  The last two are settings that commands change;
-- here they stay as they are for a whole run.
variable (bufs : Nat) (hash : MppTuple → Nat) (disorderDepth age : Nat)

/-- `ssn_hash_by_tuple` of the sorted tuple, under the mask of the table. -/
def MppTuple.bucket (tuple : MppTuple) : Nat :=
  hash (ssnSortTuple tuple) % ssnHashBucketSize

/-- The lookup that `frcore_tcp_process` makes for a tuple. -/
def SsnTable.lookup (table : SsnTable) (tuple : MppTuple) :
    Option (Option SsnPtr) :=
  ssnLookupByTuple bufs table (tuple.bucket hash) (ssnSortTuple tuple)
    mppSsnHashMaskSniffer

/-- The packet is given to its session. -/
def SsnTable.execute (table : SsnTable) (p : SsnPtr) (work : TcpWork) :
    SsnTable :=
  let direction := ssnDirectionTuple work.tuple (table.ssn p).key.tuplePositive
  table.set p ((table.ssn p).executePacket disorderDepth
    { work.pkt with direction := direction })

/-- The arguments with which `frcore_tcp_process` calls `ssn_prepare`. -/
def TcpWork.prepareArgs (work : TcpWork) : PrepareArgs where
  data0 := work.tuple.data0
  data1 := work.tuple.data1
  mask := mppSsnHashMaskData64
  thFlags := work.pkt.thFlags
  seq := work.pkt.seq
  ackSeq := work.pkt.ackSeq
  age := age

/-- `frcore_tcp_process`. -/
def frcoreTcpProcess (table : SsnTable) (work : TcpWork) (env : PrepareEnv) :
    Option (FrcoreAct × SsnTable) :=
  if work.pkt.thFlags &&& 0x3f = 0x3f ∨ work.pkt.thFlags &&& 0x3f = 0 then
    some (.drop, table)
  else if work.pkt.totLen < (work.pkt.ihl + work.pkt.doff) <<< 2 then
    some (.drop, table)
  else
    match table.lookup bufs hash work.tuple with
    | none => none
    | some (some p) => some (.unfree, table.execute disorderDepth p work)
    | some none =>
        match table.ssnPrepare bufs (work.tuple.bucket hash)
            (work.prepareArgs age) env with
        | none => none
        | some (none, table) => some (.drop, table)
        | some (some p, table) =>
            let table := table.set p (table.ssn p).start
            some (.unfree, table.execute disorderDepth p work)

/-- The end of a session: its queues are flushed and it is taken out. -/
def SsnTable.expire (table : SsnTable) (p : SsnPtr) (member : Bool) :
    Option SsnTable :=
  let ssn := table.ssn p
  let table :=
    if ssn.key.tcpflowrec then
      table.set p { ssn with flows := flushLock ssn.flows }
    else table
  ssnPurgeSsn bufs table p member

/-- `frcore_ssn_age_process` for the session whose timer fired. -/
def frcoreSsnAgeProcess (table : SsnTable) (p : SsnPtr) (env : AgeEnv) :
    Option SsnTable :=
  let ssn := table.ssn p
  let table := table.set p { ssn with ttl := ssn.ttl - 1 }
  if ssn.ttl = 0 then table.expire bufs p env.member
  else if env.timerOk then some (table.addTimer p)
  else table.expire bufs p env.member

/-- A packet arrives, or a timer fires. -/
inductive SsnEvent where
  | packet (work : TcpWork) (env : PrepareEnv)
  | timer (p : SsnPtr) (env : AgeEnv)

/-- Only timers that run can fire. -/
def SsnTable.step (table : SsnTable) : SsnEvent → Option SsnTable
  | .packet work env =>
      (frcoreTcpProcess bufs hash disorderDepth age table work env).map Prod.snd
  | .timer p env =>
      if p ∈ table.timers then
        frcoreSsnAgeProcess bufs
          { table with timers := table.timers.erase p } p env
      else some table

def SsnTable.run : List SsnEvent → SsnTable → Option SsnTable
  | [], table => some table
  | event :: rest, table =>
      (table.step bufs hash disorderDepth age event).bind (SsnTable.run rest)

end Process

end Barley
