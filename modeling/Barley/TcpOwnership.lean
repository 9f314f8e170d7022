/-
Who owns the buffers during reassembly.  The same queues as before, but each
entry has its identity and holds the work buffer of its packet, and every call
of `frcore_work_free` and of the entry pool is logged.
-/
import Barley.SsnBlockLaw

namespace Barley

/-- A `tseg_qent` that has been taken from the pool, and the buffer behind its
data.  `qent` and `work` tell which ones they are. -/
structure OwnedQent where
  entry : TsegQent
  qent : Nat
  work : Nat

/-- `tcp_flow_data` with such entries. -/
structure OwnedFlow where
  rcvNxt : Nat
  head : List OwnedQent
  tsegqeLen : Nat
  rev : Bool

/-- The two flows of a session. -/
structure OwnedSsn where
  seq : Nat
  ackSeq : Nat
  positiveData : OwnedFlow
  negativeData : OwnedFlow

def OwnedFlow.erase (flow : OwnedFlow) : TcpFlowData where
  rcvNxt := flow.rcvNxt
  head := flow.head.map OwnedQent.entry
  tsegqeLen := flow.tsegqeLen
  rev := flow.rev

def OwnedSsn.erase (ssn : OwnedSsn) : MppSsn where
  seq := ssn.seq
  ackSeq := ssn.ackSeq
  positiveData := ssn.positiveData.erase
  negativeData := ssn.negativeData.erase

def OwnedSsn.flow (ssn : OwnedSsn) : FlowDirection → OwnedFlow
  | .positive => ssn.positiveData
  | .negative => ssn.negativeData

def OwnedSsn.setFlow (ssn : OwnedSsn) (direction : FlowDirection)
    (flow : OwnedFlow) : OwnedSsn :=
  match direction with
  | .positive => { ssn with positiveData := flow }
  | .negative => { ssn with negativeData := flow }

def SubmitRun.emit (run : SubmitRun) (event : FlowEvent) : SubmitRun :=
  { run with log := run.log ++ [event] }

section Reassembly

variable (env : Nat → SubmitEnv)

/-- `__send_packet` for an entry that has left its queue; `env` says how the
submission of each entry ends. -/
def SubmitRun.send (run : SubmitRun) (q : OwnedQent) : SubmitRun :=
  let result := sbumitDataToFifo run.ssn q.entry q.work (env q.qent)
  ⟨result.2.1, run.log ++ result.2.2 ++ [.qentFree q.qent]⟩

/-- The removal of the first entry in `__send_packet`. -/
def OwnedFlow.removeFirst (flow : OwnedFlow) : OwnedFlow :=
  { flow with
    head := flow.head.tail
    tsegqeLen := dec32 flow.tsegqeLen }

/-- `tcp_flow_flush`. -/
def flushOwned (flow : OwnedFlow) (run : SubmitRun) : OwnedFlow × SubmitRun :=
  ({ flow with rcvNxt := 0, head := [], tsegqeLen := 0 },
    flow.head.foldl (SubmitRun.send env) run)

/-- The draining loop of `send_reverse_tcpflow`. -/
def drainOwned : List OwnedQent → OwnedFlow → SubmitRun →
    OwnedFlow × SubmitRun
  | [], flow, run => (flow, run)
  | q :: rest, flow, run =>
      if q.entry.nxtSeq ≤ flow.rcvNxt then
        drainOwned rest flow.removeFirst (run.send env q)
      else ({ flow with rcvNxt := q.entry.seq }, run)

/-- `send_reverse_tcpflow`. -/
def sendReverseOwned (flow : OwnedFlow) (ackNum : Nat) (run : SubmitRun) :
    OwnedFlow × SubmitRun :=
  if toInt (sub64 ackNum flow.rcvNxt) = 0 then
    let (drained, run) := drainOwned env flow.head flow run
    if drained.head = [] then
      ({ drained with rcvNxt := 0, head := [], tsegqeLen := 0 }, run)
    else
      ({ drained with
        rcvNxt := (drained.head.map OwnedQent.entry).foldl advanceRcvNxt
          drained.rcvNxt }, run)
  else flushOwned env flow run

/-- The loop over the succeeding entries: covered ones are dequeued and freed
with their buffers. -/
def trimOwned (stop : Nat) : List OwnedQent → Nat → SubmitRun →
    List OwnedQent × Nat × SubmitRun
  | [], tsegqeLen, run => ([], tsegqeLen, run)
  | q :: rest, tsegqeLen, run =>
      let i := toInt (sub64 stop q.entry.seq)
      if i ≤ 0 then (q :: rest, tsegqeLen, run)
      else if i < toInt q.entry.dataLen then
        ({ q with entry := { q.entry with
          seq := (q.entry.seq + i.toNat) % 2 ^ 32
          data := fun k => q.entry.data (i.toNat + k)
          dataLen := sub64 q.entry.dataLen i.toNat } } :: rest, tsegqeLen, run)
      else
        trimOwned stop rest (dec32 tsegqeLen)
          ((run.emit (.workFree q.work)).emit (.qentFree q.qent))

/-- The end of `reass_tcp`; `te` and `work` are the new entry and the buffer of
the packet. -/
def placeOwned (disorderDepth : Nat) (flow : OwnedFlow) (pkt : TcpPacket)
    (te work : Nat) (front back : List OwnedQent) (sequence : Nat)
    (data : Nat → UInt8) (dataLength : Nat) (run : SubmitRun) :
    OwnedFlow × SubmitRun :=
  let (back, tsegqeLen, run) :=
    trimOwned (add64 sequence dataLength) back flow.tsegqeLen run
  let nxtSeq := add64 sequence dataLength
  let nxtSeq := if pkt.has thSyn then add64 nxtSeq 1 else nxtSeq
  let rcvNxt := if front ++ back = [] then nxtSeq else flow.rcvNxt
  if pkt.has thSyn then
    ({ flow with
      rcvNxt := rcvNxt, head := front ++ back, tsegqeLen := tsegqeLen },
      (run.emit (.workFree work)).emit (.qentFree te))
  else
    let entry : TsegQent :=
      { seq := sequence % 2 ^ 32
        ackNum := pkt.ackNum % 2 ^ 32
        nxtSeq := nxtSeq
        data := data
        dataLen := dataLength
        direction := pkt.direction }
    let tsegqeLen := (tsegqeLen + 1) % 2 ^ 32
    let queued : OwnedFlow := { flow with
      rcvNxt := rcvNxt
      head := front ++ ⟨entry, te, work⟩ :: back
      tsegqeLen := tsegqeLen }
    if disorderDepth ≤ tsegqeLen then flushOwned env queued run
    else if sequence = rcvNxt then
      let rcvNxt := if seqGt nxtSeq rcvNxt then nxtSeq else rcvNxt
      ({ queued with
        rcvNxt := followRcvNxt (back.map OwnedQent.entry) rcvNxt }, run)
    else (queued, run)

/-- The entry that a retransmission takes over: its old buffer is freed. -/
def OwnedQent.takeOver (p : OwnedQent) (pkt : TcpPacket) (work : Nat) :
    OwnedQent :=
  { p with
    work := work
    entry := { p.entry with
      seq := pkt.sequence % 2 ^ 32
      ackNum := pkt.ackNum % 2 ^ 32
      data := pkt.data
      dataLen := pkt.dataLength } }

/-- The queueing part of `reass_tcp`, with the new entry `te` at hand. -/
def queueOwned (disorderDepth : Nat) (flow : OwnedFlow) (pkt : TcpPacket)
    (te work : Nat) (run : SubmitRun) : OwnedFlow × SubmitRun :=
  let (front, back) := flow.head.span fun q =>
    !seqGt q.entry.seq pkt.sequence
  let p := front.getLast?
  if p.any fun p => seqWindow < sub64 pkt.sequence p.entry.seq then
    (flow, (run.emit (.workFree work)).emit (.qentFree te))
  else
    match precedingOverlap (p.map OwnedQent.entry) pkt.sequence pkt.data
        pkt.dataLength with
    | .duplicate => (flow, (run.emit (.workFree work)).emit (.qentFree te))
    | .replace =>
        ({ flow with
          head := front.dropLast ++
            (p.map fun p => p.takeOver pkt work).toList ++ back },
          p.toList.foldl (fun run p => run.emit (.workFree p.work))
            (run.emit (.qentFree te)))
    | .rest sequence data dataLength =>
        placeOwned env disorderDepth flow pkt te work front back sequence data
          dataLength run

def ackReverseOwned (fwd rev : OwnedFlow) (ackNum : Nat) (run : SubmitRun) :
    OwnedFlow × SubmitRun :=
  if fwd.rev ∧ rev.head ≠ [] then sendReverseOwned env rev ackNum run
  else (rev, run)

/-- `reass_tcp` for the packet whose buffer is `work`; `te` is the entry that
the pool hands out if it has one. -/
def reassOwned (disorderDepth : Nat) (ssn : OwnedSsn) (pkt : TcpPacket)
    (te work : Nat) (run : SubmitRun) : OwnedSsn × SubmitRun :=
  if pkt.sequence < ssn.erase.ssnSeq pkt.direction then
    (ssn, run.emit (.workFree work))
  else
    let fwd := ssn.flow pkt.direction
    let (rev, run) :=
      ackReverseOwned env fwd (ssn.flow pkt.direction.other) pkt.ackNum run
    let ssn := ssn.setFlow pkt.direction.other rev
    if pkt.has (thFin ||| thRst) then
      let (flushed, run) := flushOwned env fwd (run.emit (.workFree work))
      (ssn.setFlow pkt.direction flushed, run)
    else if disorderDepth ≤ fwd.tsegqeLen then
      (ssn, run.emit (.workFree work))
    else if !pkt.allocOk then (ssn, run.emit (.workFree work))
    else
      let (fwd, run) :=
        queueOwned env disorderDepth fwd pkt te work (run.emit (.qentTake te))
      (ssn.setFlow pkt.direction fwd, run)

/-- The headers of a packet: what `tcp_flow_recovery` reads. -/
structure IpTcpPacket where
  protocol : Nat
  totLen : Nat
  ihl : Nat
  doff : Nat
  seq : Nat
  ackSeq : Nat
  thFlags : Nat
  data : Nat → UInt8
  direction : FlowDirection
  allocOk : Bool

/-- The length of the payload, an `int`. -/
def IpTcpPacket.dataLen (pkt : IpTcpPacket) : Int :=
  (pkt.totLen : Int) - ((pkt.ihl + pkt.doff) <<< 2 : Nat)

/-- The arguments that `tcp_flow_recovery` passes to `reass_tcp`. -/
def IpTcpPacket.segment (pkt : IpTcpPacket) : TcpPacket where
  sequence := pkt.seq
  ackNum := pkt.ackSeq
  data := pkt.data
  dataLength := (pkt.dataLen % 2 ^ 64).toNat
  thFlags := pkt.thFlags
  direction := pkt.direction
  allocOk := pkt.allocOk

/-- `tcp_flow_recovery`. -/
def tcpFlowRecovery (disorderDepth : Nat) (ssn : OwnedSsn)
    (pkt : IpTcpPacket) (te work : Nat) (run : SubmitRun) :
    OwnedSsn × SubmitRun :=
  if pkt.protocol = 0x06 then
    if pkt.dataLen = 0 ∧ ¬ pkt.segment.has (thSyn ||| thFin ||| thRst) then
      (ssn, run.emit (.workFree work))
    else reassOwned env disorderDepth ssn pkt.segment te work run
  else (ssn, run.emit (.workFree work))

/-- `tcp_flow_flush_lock` for one of the flows. -/
def flushLockOwned (flow : OwnedFlow) (run : SubmitRun) :
    OwnedFlow × SubmitRun :=
  let (flushed, run) := flushOwned env flow run
  ({ flushed with rev := false }, run)

/-- `tcp_flow_flush_lock`. -/
def tcpFlowFlushLock (ssn : OwnedSsn) (run : SubmitRun) :
    OwnedSsn × SubmitRun :=
  let (positiveData, run) := flushLockOwned env ssn.positiveData run
  let (negativeData, run) := flushLockOwned env ssn.negativeData run
  ({ ssn with positiveData := positiveData, negativeData := negativeData }, run)

end Reassembly

/-- A packet for the session, or a flush of its queues. -/
inductive FlowOp where
  | packet (pkt : IpTcpPacket) (env : Nat → SubmitEnv)
  | flush (env : Nat → SubmitEnv)

/-- A session, what its calls have done, and how many packets it was given.
The buffer of a packet and the entry taken for it bear its number. -/
structure OwnedRun where
  ssn : OwnedSsn
  run : SubmitRun
  given : Nat

def OwnedRun.step (disorderDepth : Nat) (state : OwnedRun) :
    FlowOp → OwnedRun
  | .packet pkt env =>
      let result := tcpFlowRecovery env disorderDepth state.ssn pkt
        state.given state.given state.run
      ⟨result.1, result.2, state.given + 1⟩
  | .flush env =>
      let result := tcpFlowFlushLock env state.ssn state.run
      ⟨result.1, result.2, state.given⟩

end Barley
