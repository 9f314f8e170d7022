/-
The loop test of the DMA engine.  A thread of the host writes packets to a ring
in its memory, a core copies what it finds there to a second ring, and another
thread of the host reads the packets from that ring and counts the bytes that
are wrong.
-/
import Barley.DmaCalls
import Barley.MachineWords
import Barley.RingStream

namespace Barley

/-- `FRC_DMA_LOOP_BUFF_SIZE`. -/
def frcDmaLoopBuffSize : Nat := 4096 * 1024 - 16

/-- `frc_dma_loop_buff_t`. -/
structure DmaLoopBuff where
  widx : Nat
  ridx : Nat
  buff : Nat → UInt8

/-- `LEN` and `ENTRIES` of the test, for packets that fit into the ring. -/
structure DmaLoopArgs where
  pktLen : Nat
  entries : Nat
  pktLen_le : pktLen ≤ frcDmaLoopBuffSize
  entries_lt : entries < 2 ^ 32

/-- The bytes of the packet with which `remain` packets remain. -/
def dmaLoopValue (remain : Nat) : UInt8 :=
  if remain % 2 = 1 then 0x5a else 0xa5

def DmaLoopArgs.packet (args : DmaLoopArgs) (remain : Nat) : List UInt8 :=
  List.replicate args.pktLen (dmaLoopValue remain)

/-- Where `dma_tx` is: at its check, between the two `memset`, or before the
write of the index. -/
inductive DmaTxOp where
  | check
  | second
  | publish
deriving DecidableEq, Repr

/-- Where `dma_rx` is: at its check, or before the write of the index. -/
inductive DmaRxOp where
  | check
  | publish
deriving DecidableEq, Repr

/-- Where the core is in `frcore_dma_loop`. -/
inductive DmaLoopOp where
  | poll
  | room (txLen : Nat)
  | recvFirst (txLen : Nat)
  | recvSecond (txLen : Nat)
  | sendFirst (txLen : Nat)
  | sendSecond (txLen : Nat)
  | storeRidx (txLen : Nat)
  | storeWidx
  | stopped
deriving DecidableEq, Repr

/-- The two rings, the threads with the packets that remain to them, and the
core with its copies of the indexes and its buffer.  `sent` and `received`
record the bytes. -/
structure DmaLoopState where
  tx : DmaLoopBuff
  rx : DmaLoopBuff
  txOp : DmaTxOp
  txRemain : Nat
  rxOp : DmaRxOp
  rxRemain : Nat
  errBytes : Nat
  op : DmaLoopOp
  cnt : Nat
  txRidx : Nat
  rxWidx : Nat
  tempBuff : List UInt8
  sent : List UInt8
  received : List UInt8

/-- `tlen1`: the part of `len` bytes from index `idx` on that lies before the
end of the ring. -/
def dmaLoopLen1 (idx len : Nat) : Nat :=
  Ring.firstPiece frcDmaLoopBuffSize idx len

namespace DmaLoopState

section Threads

variable (args : DmaLoopArgs) (s : DmaLoopState)

/-- The first `memset` of `dma_tx`. -/
def txFirst : DmaLoopState :=
  { s with
    tx := { s.tx with
      buff := Ring.write s.tx.buff (s.tx.widx % frcDmaLoopBuffSize)
        ((args.packet s.txRemain).take
          (dmaLoopLen1 s.tx.widx args.pktLen)) }
    txOp := if dmaLoopLen1 s.tx.widx args.pktLen < args.pktLen then .second
      else .publish }

/-- The second `memset` of `dma_tx`. -/
def txSecond : DmaLoopState :=
  { s with
    tx := { s.tx with
      buff := Ring.write s.tx.buff 0 ((args.packet s.txRemain).drop
        (dmaLoopLen1 s.tx.widx args.pktLen)) }
    txOp := .publish }

def txPublish : DmaLoopState :=
  { s with
    tx := { s.tx with widx := add64 s.tx.widx args.pktLen }
    txOp := .check
    txRemain := s.txRemain - 1
    sent := s.sent ++ args.packet s.txRemain }

/-- What `dma_rx` compares. -/
def rxBytes : List UInt8 :=
  Ring.read s.rx.buff (s.rx.ridx % frcDmaLoopBuffSize)
      (dmaLoopLen1 s.rx.ridx args.pktLen) ++
    Ring.read s.rx.buff 0 (args.pktLen - dmaLoopLen1 s.rx.ridx args.pktLen)

def rxRead : DmaLoopState :=
  { s with
    rxOp := .publish
    errBytes := s.errBytes +
      (s.rxBytes args).countP (· ≠ dmaLoopValue s.rxRemain)
    received := s.received ++ s.rxBytes args }

def rxPublish : DmaLoopState :=
  { s with
    rx := { s.rx with ridx := add64 s.rx.ridx args.pktLen }
    rxOp := .check
    rxRemain := s.rxRemain - 1 }

end Threads

section Core

variable (drv : PciDriver) (s : DmaLoopState) (txLen : Nat)

/-- The number of bytes is read, and the core sleeps or goes on. -/
def poll : DmaLoopState :=
  let txLen := sub64 s.tx.widx s.txRidx
  if txLen = 0 then { s with cnt := 0 }
  else if s.cnt < 10 ∧ txLen < drv.buffMax then { s with cnt := s.cnt + 1 }
  else
    { s with op := .room (if drv.buffMax < txLen then drv.buffMax else txLen) }

/-- The core waits for room in the second ring. -/
def room : DmaLoopState :=
  if sub64 s.rxWidx s.rx.ridx ≤ sub64 frcDmaLoopBuffSize txLen then
    { s with op := .recvFirst txLen }
  else s

def recvFirst : DmaLoopState :=
  { s with
    tempBuff := Ring.read s.tx.buff (s.txRidx % frcDmaLoopBuffSize)
      (dmaLoopLen1 s.txRidx txLen)
    op := if dmaLoopLen1 s.txRidx txLen < txLen then .recvSecond txLen
      else .sendFirst txLen }

def recvSecond : DmaLoopState :=
  { s with
    tempBuff := s.tempBuff ++
      Ring.read s.tx.buff 0 (txLen - dmaLoopLen1 s.txRidx txLen)
    op := .sendFirst txLen }

def sendFirst : DmaLoopState :=
  { s with
    rx := { s.rx with
      buff := Ring.write s.rx.buff (s.rxWidx % frcDmaLoopBuffSize)
        (s.tempBuff.take (dmaLoopLen1 s.rxWidx txLen)) }
    op := if dmaLoopLen1 s.rxWidx txLen < txLen then .sendSecond txLen
      else .storeRidx txLen }

def sendSecond : DmaLoopState :=
  { s with
    rx := { s.rx with
      buff := Ring.write s.rx.buff 0
        (s.tempBuff.drop (dmaLoopLen1 s.rxWidx txLen)) }
    op := .storeRidx txLen }

/-- Both indexes are moved, and the host gets the first. -/
def storeRidx : DmaLoopState :=
  { s with
    txRidx := add64 s.txRidx txLen
    rxWidx := add64 s.rxWidx txLen
    tx := { s.tx with ridx := add64 s.txRidx txLen }
    op := .storeWidx }

/-- The host gets the second index. -/
def storeWidx : DmaLoopState :=
  { s with
    rx := { s.rx with widx := s.rxWidx }
    op := .poll }

end Core

end DmaLoopState

/-- One step of a thread or of the core.  The core stops when a DMA fails. -/
inductive DmaLoopStep (args : DmaLoopArgs) (drv : PciDriver) :
    DmaLoopState → DmaLoopState → Prop
  | txFirst {s : DmaLoopState} (hop : s.txOp = .check)
      (hremain : 0 < s.txRemain)
      (hroom : sub64 s.tx.widx s.tx.ridx <
        frcDmaLoopBuffSize - args.pktLen) :
      DmaLoopStep args drv s (s.txFirst args)
  | txSecond {s : DmaLoopState} (hop : s.txOp = .second) :
      DmaLoopStep args drv s (s.txSecond args)
  | txPublish {s : DmaLoopState} (hop : s.txOp = .publish) :
      DmaLoopStep args drv s (s.txPublish args)
  | rxRead {s : DmaLoopState} (hop : s.rxOp = .check)
      (hremain : 0 < s.rxRemain)
      (hlen : args.pktLen ≤ sub64 s.rx.widx s.rx.ridx) :
      DmaLoopStep args drv s (s.rxRead args)
  | rxPublish {s : DmaLoopState} (hop : s.rxOp = .publish) :
      DmaLoopStep args drv s (s.rxPublish args)
  | poll {s : DmaLoopState} (hop : s.op = .poll) :
      DmaLoopStep args drv s (s.poll drv)
  | room {s : DmaLoopState} {txLen : Nat} (hop : s.op = .room txLen) :
      DmaLoopStep args drv s (s.room txLen)
  | recvFirst {s : DmaLoopState} {txLen : Nat} (hop : s.op = .recvFirst txLen) :
      DmaLoopStep args drv s (s.recvFirst txLen)
  | recvSecond {s : DmaLoopState} {txLen : Nat}
      (hop : s.op = .recvSecond txLen) :
      DmaLoopStep args drv s (s.recvSecond txLen)
  | sendFirst {s : DmaLoopState} {txLen : Nat} (hop : s.op = .sendFirst txLen) :
      DmaLoopStep args drv s (s.sendFirst txLen)
  | sendSecond {s : DmaLoopState} {txLen : Nat}
      (hop : s.op = .sendSecond txLen) :
      DmaLoopStep args drv s (s.sendSecond txLen)
  | storeRidx {s : DmaLoopState} {txLen : Nat} (hop : s.op = .storeRidx txLen) :
      DmaLoopStep args drv s (s.storeRidx txLen)
  | storeWidx {s : DmaLoopState} (hop : s.op = .storeWidx) :
      DmaLoopStep args drv s s.storeWidx
  | fail {s : DmaLoopState} :
      DmaLoopStep args drv s { s with op := .stopped }

/-- Every state that some order of steps leads to. -/
inductive DmaLoopReachable (args : DmaLoopArgs) (drv : PciDriver)
    (start : DmaLoopState) : DmaLoopState → Prop
  | start : DmaLoopReachable args drv start start
  | step {s s' : DmaLoopState} (h : DmaLoopReachable args drv start s)
      (hstep : DmaLoopStep args drv s s') : DmaLoopReachable args drv start s'

/-- The rings as `frcdrv_dma_init` leaves them, and the threads with all
packets to go. -/
def DmaLoopArgs.start (args : DmaLoopArgs) : DmaLoopState where
  tx := ⟨0, 0, fun _ => 0⟩
  rx := ⟨0, 0, fun _ => 0⟩
  txOp := .check
  txRemain := args.entries
  rxOp := .check
  rxRemain := args.entries
  errBytes := 0
  op := .poll
  cnt := 0
  txRidx := 0
  rxWidx := 0
  tempBuff := []
  sent := []
  received := []

end Barley
