/-
The reassembly of TCP streams: each direction of a session queues its
segments in sequence order, a packet of the other direction acknowledges and
drains them, and overlaps are trimmed or dropped when a segment is queued.
-/
import Barley.MachineWords
import Barley.Segments

namespace Barley

/-- `64*K`. -/
def seqWindow : Nat := 64 * 1024

/-- `TH_FIN`, `TH_SYN` and `TH_RST`. -/
def thFin : Nat := 0x01

def thSyn : Nat := 0x02

def thRst : Nat := 0x04

/-- `SEQ_GT`: the difference is converted to `int`. -/
def seqGt (a b : Nat) : Bool := 0 < toInt (sub64 a b)

/-- The direction of a flow within its session. -/
inductive FlowDirection where
  | positive
  | negative
deriving DecidableEq, Repr

/-- `tseg_qent`: a queued segment.  `seq` and `ack_num` have 32 bits, `nxt_seq`
and `data_len` have 64; `data` is what can be read behind the data pointer. -/
structure TsegQent where
  seq : Nat
  ackNum : Nat
  nxtSeq : Nat
  data : Nat → UInt8
  dataLen : Nat
  direction : FlowDirection

/-- `tcp_flow_data`: `rev` tells whether `rev_flow_data` is set; it then
points to the flow of the other direction. -/
structure TcpFlowData where
  rcvNxt : Nat
  head : List TsegQent
  tsegqeLen : Nat
  rev : Bool

/-- The part of a session that reassembly uses: the first sequence number of
either direction and the two flows. -/
structure MppSsn where
  seq : Nat
  ackSeq : Nat
  positiveData : TcpFlowData
  negativeData : TcpFlowData

/-- The flow of a session that has just been created. -/
def TcpFlowData.fresh : TcpFlowData where
  rcvNxt := 0
  head := []
  tsegqeLen := 0
  rev := true

/-- A new session, from the numbers of its first packet. -/
def ssnPrepare (seq ackSeq : Nat) : MppSsn where
  seq := seq
  ackSeq := ackSeq
  positiveData := .fresh
  negativeData := .fresh

def MppSsn.flow (ssn : MppSsn) : FlowDirection → TcpFlowData
  | .positive => ssn.positiveData
  | .negative => ssn.negativeData

def MppSsn.setFlow (ssn : MppSsn) (direction : FlowDirection)
    (flowData : TcpFlowData) : MppSsn :=
  match direction with
  | .positive => { ssn with positiveData := flowData }
  | .negative => { ssn with negativeData := flowData }

def FlowDirection.other : FlowDirection → FlowDirection
  | .positive => .negative
  | .negative => .positive

/-- The first sequence number of a direction. -/
def MppSsn.ssnSeq (ssn : MppSsn) : FlowDirection → Nat
  | .positive => ssn.seq
  | .negative => ssn.ackSeq

/-- The arguments of `reass_tcp` for one packet, and whether the allocation of
a queue entry succeeds for it. -/
structure TcpPacket where
  sequence : Nat
  ackNum : Nat
  data : Nat → UInt8
  dataLength : Nat
  thFlags : Nat
  direction : FlowDirection
  allocOk : Bool

def TcpPacket.has (pkt : TcpPacket) (flags : Nat) : Bool :=
  pkt.thFlags &&& flags ≠ 0

/-- `__send_packet` for the first entry: it is handed to the fifo whether or
not the fifo takes it. -/
def sendPacket (flowData : TcpFlowData) : TcpFlowData :=
  { flowData with
    head := flowData.head.tail
    tsegqeLen := dec32 flowData.tsegqeLen }

/-- `tcp_flow_flush`: everything is sent in queue order. -/
def tcpFlowFlush (flowData : TcpFlowData) : TcpFlowData × List TsegQent :=
  ({ flowData with rcvNxt := 0, head := [], tsegqeLen := 0 }, flowData.head)

/-- The draining loop of `send_reverse_tcpflow`, over the entries of the queue:
those that end at or below `rcv_nxt` are sent; the first other one moves
`rcv_nxt` to its start. -/
def drainAcked : List TsegQent → TcpFlowData → TcpFlowData × List TsegQent
  | [], flowData => (flowData, [])
  | q :: rest, flowData =>
      if q.nxtSeq ≤ flowData.rcvNxt then
        let done := drainAcked rest (sendPacket flowData)
        (done.1, q :: done.2)
      else ({ flowData with rcvNxt := q.seq }, [])

/-- One entry that starts at `rcv_nxt` and ends behind it moves `rcv_nxt` to
its end. -/
def advanceRcvNxt (rcvNxt : Nat) (q : TsegQent) : Nat :=
  if q.seq = rcvNxt ∧ seqGt q.nxtSeq rcvNxt then q.nxtSeq else rcvNxt

/-- `send_reverse_tcpflow`: the flow after the call and what was sent. -/
def sendReverseTcpflow (flowData : TcpFlowData) (ackNum : Nat) :
    TcpFlowData × List TsegQent :=
  if toInt (sub64 ackNum flowData.rcvNxt) = 0 then
    let (drained, sent) := drainAcked flowData.head flowData
    if drained.head = [] then
      ({ drained with rcvNxt := 0, head := [], tsegqeLen := 0 }, sent)
    else
      ({ drained with
        rcvNxt := drained.head.foldl advanceRcvNxt drained.rcvNxt }, sent)
  else tcpFlowFlush flowData

/-- What a preceding entry leaves of an arriving segment. -/
inductive Overlap where
  | duplicate
  | replace
  | rest (sequence : Nat) (data : Nat → UInt8) (dataLength : Nat)

/-- The overlap with the preceding entry `p`. -/
def precedingOverlap (p : Option TsegQent) (sequence : Nat)
    (data : Nat → UInt8) (dataLength : Nat) : Overlap :=
  match p with
  | none => .rest sequence data dataLength
  | some p =>
      let i := toInt (sub64 (add64 p.seq p.dataLen) sequence)
      if 0 < i then
        if toInt dataLength < i then .duplicate
        else if i = toInt dataLength then .replace
        else .rest (add64 sequence i.toNat) (fun k => data (i.toNat + k))
          (sub64 dataLength i.toNat)
      else .rest sequence data dataLength

/-- The loop over the succeeding entries: those that start before `stop` are
trimmed, or dequeued when they end at or before it. -/
def trimSucceeding (stop : Nat) :
    List TsegQent → Nat → List TsegQent × Nat
  | [], tsegqeLen => ([], tsegqeLen)
  | q :: rest, tsegqeLen =>
      let i := toInt (sub64 stop q.seq)
      if i ≤ 0 then (q :: rest, tsegqeLen)
      else if i < toInt q.dataLen then
        ({ q with
          seq := (q.seq + i.toNat) % 2 ^ 32
          data := fun k => q.data (i.toNat + k)
          dataLen := sub64 q.dataLen i.toNat } :: rest, tsegqeLen)
      else trimSucceeding stop rest (dec32 tsegqeLen)

/-- The loop that follows the entries after the inserted one as long as they
continue the stream. -/
def followRcvNxt : List TsegQent → Nat → Nat
  | [], rcvNxt => rcvNxt
  | q :: rest, rcvNxt =>
      if q.seq = rcvNxt then followRcvNxt rest (advanceRcvNxt rcvNxt q)
      else rcvNxt

/-- The ways a call of `reass_tcp` ends. -/
inductive ReassOutcome where
  | beforeFirst
  | purge
  | overflow
  | memFailed
  | tooFar
  | duplicate
  | replace
  | syn
  | flush
  | queued
deriving DecidableEq, Repr

/-- The end of `reass_tcp` for the flow of the packet: `front` are the entries
up to the preceding one, `back` the entries after it. -/
def placeSegment (disorderDepth : Nat) (flowData : TcpFlowData)
    (pkt : TcpPacket) (front back : List TsegQent) (sequence : Nat)
    (data : Nat → UInt8) (dataLength : Nat) :
    ReassOutcome × TcpFlowData × List TsegQent :=
  let (back, tsegqeLen) :=
    trimSucceeding (add64 sequence dataLength) back flowData.tsegqeLen
  let nxtSeq := add64 sequence dataLength
  let nxtSeq := if pkt.has thSyn then add64 nxtSeq 1 else nxtSeq
  let rcvNxt := if front ++ back = [] then nxtSeq else flowData.rcvNxt
  if pkt.has thSyn then
    (.syn, { flowData with
      rcvNxt := rcvNxt, head := front ++ back, tsegqeLen := tsegqeLen }, [])
  else
    let te : TsegQent :=
      { seq := sequence % 2 ^ 32
        ackNum := pkt.ackNum % 2 ^ 32
        nxtSeq := nxtSeq
        data := data
        dataLen := dataLength
        direction := pkt.direction }
    let tsegqeLen := (tsegqeLen + 1) % 2 ^ 32
    let queued : TcpFlowData := { flowData with
      rcvNxt := rcvNxt, head := front ++ te :: back, tsegqeLen := tsegqeLen }
    if disorderDepth ≤ tsegqeLen then
      let (flushed, sent) := tcpFlowFlush queued
      (.flush, flushed, sent)
    else if sequence = rcvNxt then
      let rcvNxt := if seqGt nxtSeq rcvNxt then nxtSeq else rcvNxt
      (.queued, { queued with rcvNxt := followRcvNxt back rcvNxt }, [])
    else (.queued, queued, [])

/-- The queueing part of `reass_tcp`, from the search for the place of the
segment on. -/
def queueSegment (disorderDepth : Nat) (flowData : TcpFlowData)
    (pkt : TcpPacket) : ReassOutcome × TcpFlowData × List TsegQent :=
  let (front, back) := flowData.head.span fun q =>
    !seqGt q.seq pkt.sequence
  let p := front.getLast?
  if p.any fun p => seqWindow < sub64 pkt.sequence p.seq then
    (.tooFar, flowData, [])
  else
    match precedingOverlap p pkt.sequence pkt.data pkt.dataLength with
    | .duplicate => (.duplicate, flowData, [])
    | .replace =>
        (.replace, { flowData with
          head := front.dropLast ++ (p.map fun p => { p with
            seq := pkt.sequence % 2 ^ 32
            ackNum := pkt.ackNum % 2 ^ 32
            data := pkt.data
            dataLen := pkt.dataLength }).toList ++ back }, [])
    | .rest sequence data dataLength =>
        placeSegment disorderDepth flowData pkt front back sequence data
          dataLength

/-- What a call of `reass_tcp` does: how it ends, the session it leaves and
what it hands to the fifo from the other direction's queue and from its own. -/
structure ReassResult where
  outcome : ReassOutcome
  ssn : MppSsn
  revSent : List TsegQent
  fwdSent : List TsegQent

/-- The acknowledgement at the start of `reass_tcp`: what it makes of the flow
of the other direction and what it sends from it. -/
def ackReverse (fwd rev : TcpFlowData) (ackNum : Nat) :
    TcpFlowData × List TsegQent :=
  if fwd.rev ∧ rev.head ≠ [] then sendReverseTcpflow rev ackNum
  else (rev, [])

/-- `reass_tcp`.  Counters and the freeing of buffers are left out. -/
def reassTcp (disorderDepth : Nat) (ssn : MppSsn) (pkt : TcpPacket) :
    ReassResult :=
  if pkt.sequence < ssn.ssnSeq pkt.direction then ⟨.beforeFirst, ssn, [], []⟩
  else
    let fwd := ssn.flow pkt.direction
    let (rev, revSent) :=
      ackReverse fwd (ssn.flow pkt.direction.other) pkt.ackNum
    let ssn := ssn.setFlow pkt.direction.other rev
    if pkt.has (thFin ||| thRst) then
      let (flushed, sent) := tcpFlowFlush fwd
      ⟨.purge, ssn.setFlow pkt.direction flushed, revSent, sent⟩
    else if disorderDepth ≤ fwd.tsegqeLen then ⟨.overflow, ssn, revSent, []⟩
    else if !pkt.allocOk then ⟨.memFailed, ssn, revSent, []⟩
    else
      let (outcome, fwd, sent) := queueSegment disorderDepth fwd pkt
      ⟨outcome, ssn.setFlow pkt.direction fwd, revSent, sent⟩

end Barley
