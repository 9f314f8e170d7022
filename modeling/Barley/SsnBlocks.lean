/-
Blocks of a session.  Payloads grow up from the header, the records about them
grow down from the end of the block; when the next payload does not fit, the
header is submitted and a new block is taken.
-/
import Barley.TcpReassembly
import Barley.FrcTypes

namespace Barley

/-- `FRC_DMA_SSN_BLOCK_SIZE`. -/
def frcDmaSsnBlockSize : Nat := 8 * 1024

/-- `sizeof(frc_dma_hdr_t)`. -/
def sizeofDmaHdr : Nat := 40

/-- `sizeof(frc_dma_pkt_info_t)`. -/
def sizeofPktInfo : Nat := 32

/-- `frc_ssn_submit_addr`: the offsets and the flag have 16 bits, the rest has
64. -/
structure FrcSsnSubmitAddr where
  blockAddr : Nat
  headOffset : Nat
  infoOffset : Nat
  payloadOffset : Nat
  addrFlag : Nat
  payloadLen : Nat
  pktNum : Nat

/-- The part of a session that submission uses: its key, its index, the two
words with the addresses of the stations, and the block it fills. -/
structure SubmitSsn where
  sip : Nat
  dip : Nat
  sp : Nat
  dp : Nat
  proto : Nat
  ssnIndex : Nat
  contWord1 : Nat
  contWord2 : Nat
  ssnAddr : FrcSsnSubmitAddr

/-- `frc_dma_hdr_t`, the fields that are set. -/
structure FrcDmaHdr where
  sip : Nat
  dip : Nat
  sport : Nat
  dport : Nat
  protocol : Nat
  stopSec : Nat
  hash : Nat
  totalPaylen : Nat
  pktNum : Nat

/-- `frc_dma_pkt_info_t`. -/
structure FrcDmaPktInfo where
  sequence : Nat
  ackSeq : Nat
  dataOffset : Nat
  payloadLen : Nat
  direction : FlowDirection
  smac : Nat
  dmac : Nat

/-- A cell of type `FRC_SSN_DMA_PAYLOAD`. -/
structure PayloadCell where
  info : FrcDmaPktInfo
  payload : Nat → UInt8
  payloadSize : Nat
  blockAddr : Nat
  infoOffset : Nat
  payloadOffset : Nat

/-- `frcore_ssn_fifo_cell_t`, by its type. -/
inductive SsnFifoCell where
  | head (hdr : FrcDmaHdr) (blockAddr : Nat)
  | payload (cell : PayloadCell)

/-- What the handling of packets does beyond the session: it takes a block,
puts a cell into the fifo, gives a work buffer to `frcore_work_free`, takes a
queue entry from the pool or gives one back. -/
inductive FlowEvent where
  | block (addr : Nat)
  | cell (cell : SsnFifoCell)
  | workFree (work : Nat)
  | qentTake (qent : Nat)
  | qentFree (qent : Nat)

/-- How the calls that a submission makes end: the block that it gets at its
start or after a header, and what the fifo returns for the header and for the
payload. -/
structure SubmitEnv where
  firstBlock : Option Nat
  headRv : Fre
  nextBlock : Option Nat
  payloadRv : Fre

/-- What `check_ssn_addr` sets for a new block. -/
def FrcSsnSubmitAddr.fresh (addr : Nat) : FrcSsnSubmitAddr where
  blockAddr := addr
  headOffset := frcDmaOffset
  payloadOffset := frcDmaOffset + sizeofDmaHdr
  infoOffset := frcDmaSsnBlockSize - sizeofPktInfo
  payloadLen := 0
  pktNum := 0
  addrFlag := 1

/-- `check_ssn_addr`. -/
def checkSsnAddr (ssnAddr : FrcSsnSubmitAddr) (block : Option Nat) :
    Fre × FrcSsnSubmitAddr × List FlowEvent :=
  if ssnAddr.addrFlag = 0 then
    match block with
    | none => (.nospace, ssnAddr, [])
    | some addr => (.success, .fresh addr, [.block addr])
  else (.success, ssnAddr, [])

/-- The header of the block that a session fills. -/
def SubmitSsn.dmaHdr (ssn : SubmitSsn) : FrcDmaHdr where
  sip := ssn.sip
  dip := ssn.dip
  sport := ssn.sp
  dport := ssn.dp
  protocol := ssn.proto
  stopSec := 0
  hash := ssn.ssnIndex
  totalPaylen := ssn.ssnAddr.payloadLen % 2 ^ 16
  pktNum := ssn.ssnAddr.pktNum % 2 ^ 16

def SubmitSsn.headCell (ssn : SubmitSsn) : FlowEvent :=
  .cell (.head ssn.dmaHdr ssn.ssnAddr.blockAddr)

/-- `addr_flag = 0`. -/
def SubmitSsn.close (ssn : SubmitSsn) : SubmitSsn :=
  { ssn with ssnAddr := { ssn.ssnAddr with addrFlag := 0 } }

/-- `sbumit_dma_header_to_fifo`; `rv` is what the fifo returns. -/
def sbumitDmaHeaderToFifo (ssn : SubmitSsn) (rv : Fre) :
    Fre × SubmitSsn × List FlowEvent :=
  if ssn.ssnAddr.addrFlag ≠ 0 then
    if rv ≠ .success then (rv, ssn, [])
    else (.success, ssn.close, [ssn.headCell])
  else (.success, ssn, [])

/-- The record about a payload. -/
def SubmitSsn.pktInfo (ssn : SubmitSsn) (current : TsegQent) :
    FrcDmaPktInfo where
  sequence := current.seq
  ackSeq := current.ackNum
  direction := current.direction
  payloadLen := current.dataLen % 2 ^ 16
  dataOffset := ssn.ssnAddr.payloadLen % 2 ^ 32
  smac := match current.direction with
    | .positive => ssn.contWord1 &&& 0xffffffffffff
    | .negative => ssn.contWord2 &&& 0xffffffffffff
  dmac := match current.direction with
    | .positive => ssn.contWord2 &&& 0xffffffffffff
    | .negative => ssn.contWord1 &&& 0xffffffffffff

/-- The cell that `frcore_ssn_fifo_add` fills for a payload. -/
def SubmitSsn.payloadCell (ssn : SubmitSsn) (current : TsegQent) :
    PayloadCell where
  info := ssn.pktInfo current
  payload := current.data
  payloadSize := (ssn.pktInfo current).payloadLen
  blockAddr := ssn.ssnAddr.blockAddr
  infoOffset := ssn.ssnAddr.infoOffset
  payloadOffset := ssn.ssnAddr.payloadOffset

/-- The update of the block at the end of `sbumit_data_to_fifo`. -/
def SubmitSsn.advance (ssn : SubmitSsn) (dataLen : Nat) : SubmitSsn :=
  { ssn with ssnAddr := { ssn.ssnAddr with
    infoOffset := (ssn.ssnAddr.infoOffset + (2 ^ 16 - sizeofPktInfo)) % 2 ^ 16
    payloadOffset := (ssn.ssnAddr.payloadOffset + dataLen) % 2 ^ 16
    payloadLen := add64 ssn.ssnAddr.payloadLen dataLen
    pktNum := add64 ssn.ssnAddr.pktNum 1 } }

/-- The end of `sbumit_data_to_fifo`.  A fifo that takes the payload has copied
it and frees the buffer itself. -/
def submitPayload (ssn : SubmitSsn) (current : TsegQent) (work : Nat)
    (rv : Fre) : Fre × SubmitSsn × List FlowEvent :=
  if rv ≠ .success then (rv, ssn, [.workFree work])
  else
    (.success, ssn.advance current.dataLen,
      [.workFree work, .cell (.payload (ssn.payloadCell current))])

/-- The block is full: its payloads and its records leave too little room. -/
def SubmitSsn.full (ssn : SubmitSsn) (dataLen : Nat) : Prop :=
  ssn.ssnAddr.infoOffset < add64 ssn.ssnAddr.payloadOffset dataLen

instance (ssn : SubmitSsn) (dataLen : Nat) : Decidable (ssn.full dataLen) :=
  inferInstanceAs (Decidable (_ < _))

/-- `sbumit_data_to_fifo` from the test whether the block is full on. -/
def submitToBlock (ssn : SubmitSsn) (current : TsegQent) (work : Nat)
    (env : SubmitEnv) : Fre × SubmitSsn × List FlowEvent :=
  if ssn.full current.dataLen then
    if env.headRv ≠ .success then (env.headRv, ssn, [.workFree work])
    else
      let (rv, ssnAddr, taken) := checkSsnAddr ssn.close.ssnAddr env.nextBlock
      let next := { ssn with ssnAddr := ssnAddr }
      if rv ≠ .success then
        (rv, next, ssn.headCell :: taken ++ [.workFree work])
      else
        let (rv, last, events) :=
          submitPayload next current work env.payloadRv
        (rv, last, ssn.headCell :: taken ++ events)
  else submitPayload ssn current work env.payloadRv

/-- `sbumit_data_to_fifo` for the entry `current` and its buffer. -/
def sbumitDataToFifo (ssn : SubmitSsn) (current : TsegQent) (work : Nat)
    (env : SubmitEnv) : Fre × SubmitSsn × List FlowEvent :=
  let (rv, ssnAddr, taken) := checkSsnAddr ssn.ssnAddr env.firstBlock
  let ssn := { ssn with ssnAddr := ssnAddr }
  if rv ≠ .success then (rv, ssn, taken ++ [.workFree work])
  else
    let (rv, ssn, events) := submitToBlock ssn current work env
    (rv, ssn, taken ++ events)

end Barley
