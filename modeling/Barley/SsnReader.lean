/-
How the host reads the blocks of sessions.  A block is read record by record
from its end down and payload by payload from the header up, as many as the
header counts, and is cleared afterwards.
-/
import Barley.DmaStructs
import Barley.Scatter

namespace Barley

/-- `FRC_DMA_SSN_DATA_SIZE`. -/
def frcDmaSsnDataSize : Nat := frcDmaSsnBlockSize - frcDmaOffset

/-- `fr_stat` of `pr_ssn_chan_t`, as far as reading changes it. -/
structure PrSsnStat where
  rxBlocks : UInt64
  rxErrors : UInt64
  rxPkts : UInt64
  rxBytes : UInt64
deriving DecidableEq, Repr

/-- The record about a packet and its payload, as they are dumped. -/
structure PrSsnPkt where
  info : FrcDmaPktInfoT
  payload : List UInt8
deriving DecidableEq, Repr

/-- The mask of an address of a station. -/
def macMask : UInt64 := 0xffffffffffff

section Block

variable (mem : Nat → UInt8) (dmaPkt : Nat)

/-- `len` bytes of the field `data` of a block, from `offset` on. -/
def frcSsnBlockData (offset len : Nat) : List UInt8 :=
  Ring.read mem (dmaPkt + frcDmaOffset + offset) len

/-- `pr_ssn_dma_head_get` of a block. -/
def prSsnDmaHeadGet : FrcDmaHdrT :=
  frcDmaHdrT.get (frcSsnBlockData mem dmaPkt 0 sizeofDmaHdr)

/-- The variables of the loop over the packets, the counters, and what has been
dumped. -/
structure PrSsnLoop where
  payloadOffset : Nat
  pktinfoOffset : Nat
  dmac : UInt64
  stat : PrSsnStat
  dumped : List PrSsnPkt

def ssnPktInfo (s : PrSsnLoop) : FrcDmaPktInfoT :=
  frcDmaPktInfoT.get (frcSsnBlockData mem dmaPkt s.pktinfoOffset sizeofPktInfo)

def ssnPktPayload (s : PrSsnLoop) : List UInt8 :=
  frcSsnBlockData mem dmaPkt s.payloadOffset
    (ssnPktInfo mem dmaPkt s).payloadLen.toNat

/-- A round up to the test of the addresses: the packet is counted and the
offsets, of 16 bits, move on. -/
def PrSsnLoop.count (s : PrSsnLoop) (info : FrcDmaPktInfoT) : PrSsnLoop :=
  { s with
    pktinfoOffset := (s.pktinfoOffset + (2 ^ 16 - sizeofPktInfo)) % 2 ^ 16
    payloadOffset := (s.payloadOffset + info.payloadLen.toNat) % 2 ^ 16
    stat := { s.stat with
      rxPkts := s.stat.rxPkts + 1
      rxBytes := s.stat.rxBytes + info.payloadLen.toUInt64 } }

/-- Neither end of the packet is the one that the first packet went to. -/
def PrSsnLoop.foreign (s : PrSsnLoop) (info : FrcDmaPktInfoT) : Bool :=
  s.dmac != info.dmac &&& macMask && s.dmac != info.smac &&& macMask

/-- The loop over the packets; `left` are to come and `i` is the index.  The
result says whether it was left over an address. -/
def prSsnPktLoop : (left i : Nat) → PrSsnLoop → Bool × PrSsnLoop
  | 0, _, s => (false, s)
  | left + 1, i, s =>
      let info := ssnPktInfo mem dmaPkt s
      let payload := ssnPktPayload mem dmaPkt s
      let counted := s.count info
      if i = 0 then
        prSsnPktLoop left (i + 1)
          { counted with
            dmac := info.dmac &&& macMask
            dumped := s.dumped ++ [⟨info, payload⟩] }
      else if s.foreign info then (true, counted)
      else
        prSsnPktLoop left (i + 1)
          { counted with dumped := s.dumped ++ [⟨info, payload⟩] }

/-- What `pr_ssn_pkt_process` leaves: the counters, the packets it has dumped,
and the memory without the block. -/
structure PrSsnRead where
  stat : PrSsnStat
  dumped : List PrSsnPkt
  mem : Nat → UInt8

/-- `pr_ssn_pkt_process`.  The number of packets is cut to 8 bits. -/
def prSsnPktProcess (stat : PrSsnStat) (dmaHdr : FrcDmaHdrT) : PrSsnRead :=
  let (flag, s) := prSsnPktLoop mem dmaPkt (dmaHdr.pktNum.toNat % 2 ^ 8) 0 {
    payloadOffset := sizeofDmaHdr
    pktinfoOffset := frcDmaSsnDataSize - sizeofPktInfo
    dmac := 0
    stat := stat
    dumped := [] }
  {
    stat := if flag then { s.stat with rxErrors := s.stat.rxErrors + 1 }
      else s.stat
    dumped := s.dumped
    mem := Ring.write mem dmaPkt (List.replicate frcDmaSsnBlockSize 0) }

/-- What `pr_ssn_data_thread` does with a block. -/
def prSsnDataBlock (stat : PrSsnStat) : PrSsnRead :=
  prSsnPktProcess mem dmaPkt { stat with rxBlocks := stat.rxBlocks + 1 }
    (prSsnDmaHeadGet mem dmaPkt)

end Block

end Barley
