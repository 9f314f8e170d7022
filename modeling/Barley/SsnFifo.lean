/-
The fifo of session cells and the session channel.  A cell carries the head of
a session or one packet of it; the core scatters the cells to their blocks and
puts the addresses of the blocks that have got their head into the completed
ring.
-/
import Barley.Batches
import Barley.FifoPost
import Barley.SsnBlocks

namespace Barley

/-- `frc_ssn_dma_type_e`. -/
inductive FrcSsnDmaType where
  | resv
  | dmaHead
  | dmaPayload
  | dmaMax
deriving DecidableEq, Repr

/-- `frcore_ssn_fifo_cell_t` in memory: the fields of both kinds of cell, and
a type that may be neither. -/
structure FrcoreSsnFifoCell where
  type : FrcSsnDmaType
  head : FrcDmaHdr
  info : FrcDmaPktInfo
  payload : List UInt8
  payloadSize : Nat
  blockAddr : Nat
  infoOffset : Nat
  payloadOffset : Nat

/-- `frcore_ssn_fifo_t`: the cells with their indexes, and the block addresses
kept for the fifo. -/
structure SsnFifo where
  localWidx : Nat
  localRidx : Nat
  fifoCell : Nat → FrcoreSsnFifoCell
  availBuff : Nat → Nat
  availRdx : Nat

/-- `local_num`. -/
def SsnFifo.localNum (fifo : SsnFifo) : Nat :=
  sub64 fifo.localWidx fifo.localRidx

/-- The parts of a cell that a pointer of a descriptor may point to. -/
inductive SsnPart where
  | head
  | payload
  | info
deriving DecidableEq, Repr

/-- One pointer of `frcore_dma_scatter_desc_t`: the remote address, the part
of a cell that goes there, with the distance of the cell from the first one,
and the size. -/
structure SsnPointer where
  remoteAddr : Nat
  part : SsnPart
  cur : Nat
  size : Nat
deriving DecidableEq, Repr

section Post

variable (lim : DmaLimits) (fifo : SsnFifo)

/-- The cell at distance `cur` from the first one. -/
def SsnFifo.cell (cur : Nat) : FrcoreSsnFifoCell :=
  fifo.fifoCell (add64 fifo.localRidx cur % lim.coreFifoNum)

def SsnFifo.headPointer (cur : Nat) : SsnPointer where
  remoteAddr := add64 (fifo.cell lim cur).blockAddr frcDmaOffset
  part := .head
  cur := cur
  size := sizeofDmaHdr

def SsnFifo.payloadPointer (cur : Nat) : SsnPointer where
  remoteAddr := add64 (fifo.cell lim cur).blockAddr
    (fifo.cell lim cur).payloadOffset
  part := .payload
  cur := cur
  size := (fifo.cell lim cur).payloadSize

def SsnFifo.infoPointer (cur : Nat) : SsnPointer where
  remoteAddr := add64 (fifo.cell lim cur).blockAddr
    (fifo.cell lim cur).infoOffset
  part := .info
  cur := cur
  size := sizeofPktInfo

/-- `dma_arg` with what has been sent of it, and `address` up to
`block_numb`. -/
structure SsnPostState where
  dma : Batches.Batch SsnPointer
  address : List Nat

/-- One round of the loop, up to the last flush.  An error is a `goto` to the
end. -/
def ssnPostCell (scatter : Nat → Bool) (cur : Nat) (s : SsnPostState) :
    Except SsnPostState SsnPostState :=
  match (fifo.cell lim cur).type with
  | .dmaHead =>
      match Batches.queue lim.pointers scatter s.dma
          (fifo.headPointer lim cur) with
      | .error dma => .error { s with dma := dma }
      | .ok dma => .ok ⟨dma, s.address ++ [(fifo.cell lim cur).blockAddr]⟩
  | .dmaPayload =>
      match Batches.queue lim.pointers scatter s.dma
          (fifo.payloadPointer lim cur) with
      | .error dma => .error { s with dma := dma }
      | .ok dma =>
          match Batches.queue lim.pointers scatter dma
              (fifo.infoPointer lim cur) with
          | .error dma => .error { s with dma := dma }
          | .ok dma => .ok { s with dma := dma }
  | _ => .error s

/-- The loop of `frcore_ssn_chan_post_pkt`.  `cur` is `pkt_posted` at its
head. -/
def ssnPostLoop (scatter : Nat → Bool) :
    (pktRemain cur : Nat) → SsnPostState → Nat × SsnPostState
  | 0, cur, s => (cur, s)
  | pktRemain + 1, cur, s =>
      match ssnPostCell lim fifo scatter cur s with
      | .error s => (cur, s)
      | .ok s =>
          if pktRemain = 0 ∧ 0 < s.dma.pending.length then
            match Batches.flush scatter s.dma with
            | .error dma => (cur, { s with dma := dma })
            | .ok dma => (cur + 1, { s with dma := dma })
          else ssnPostLoop scatter pktRemain (cur + 1) s

/-- What `frcore_ssn_chan_post_pkt` returns: `pkt_posted` and the addresses
`block_addr[0..block_num)`.  `written` lists the pointers of the scatters that
succeeded. -/
structure SsnPosted where
  pktPosted : Nat
  blockAddr : List Nat
  written : List SsnPointer

/-- `frcore_ssn_chan_post_pkt`; `scatter` says which of its scatters
succeed. -/
def ssnChanPostPkt (scatter : Nat → Bool) (localNum : Nat) : SsnPosted :=
  let posted := ssnPostLoop lim fifo scatter localNum 0 ⟨.empty, []⟩
  ⟨posted.1, posted.2.address, posted.2.dma.written⟩

end Post

/-- `FRC_DMA_SSN_RING_BUFF_SIZE`. -/
def frcDmaSsnRingBuffSize : Nat := 400896

/-- The two rings in host memory, and `frcore_ssn_chan_t` with the cores'
copies of their indexes. -/
structure SsnChan where
  avail : RingBuff
  compl : RingBuff
  availWidx : Nat
  availRidx : Nat
  complWidx : Nat
  complRidx : Nat

/-- `len1`: the part of `len` slots from index `idx` on that lies before the
end of the ring. -/
def SsnChan.len1 (idx len : Nat) : Nat :=
  Ring.firstPiece frcDmaSsnRingBuffSize idx len

/-- `frcore_ssn_chan_avail_get`, with the addresses it puts into `buff`. -/
def ssnChanAvailGet (dma : AvailDma) (chan : SsnChan) (number : Nat) :
    Fre × SsnChan × List Nat :=
  if !dma.widx then (.dma, chan, [])
  else
    let chan := { chan with availWidx := chan.avail.widx }
    if sub64 chan.availWidx chan.availRidx < number then (.nospace, chan, [])
    else if !dma.first then (.dma, chan, [])
    else
      let len1 := SsnChan.len1 chan.availRidx number
      let first := Ring.read chan.avail.buff
        (chan.availRidx % frcDmaSsnRingBuffSize) len1
      if len1 < number ∧ !dma.second then (.dma, chan, [])
      else
        let availBuff :=
          if len1 < number then
            first ++ Ring.read chan.avail.buff 0 (number - len1)
          else first
        let chan := { chan with availRidx := add64 chan.availRidx number }
        if !dma.ridx then (.dma, chan, [])
        else
          (.success,
            { chan with avail := { chan.avail with ridx := chan.availRidx } },
            availBuff)

/-- `frcore_ssn_chan_compl_put` of the addresses in `buff`.  A copy of no bytes
succeeds without DMA. -/
def ssnChanComplPut (dma : ComplDma) (chan : SsnChan) (buff : List Nat) :
    Fre × SsnChan :=
  if !dma.ridx then (.dma, chan)
  else
    let chan := { chan with complRidx := chan.compl.ridx }
    let len := buff.length
    if sub64 frcDmaSsnRingBuffSize len <
        sub64 chan.complWidx chan.complRidx then (.nospace, chan)
    else
      let len1 := SsnChan.len1 chan.complWidx len
      if 0 < len1 ∧ !dma.first then (.dma, chan)
      else
        let chan := { chan with compl := { chan.compl with
          buff := Ring.write chan.compl.buff
            (chan.complWidx % frcDmaSsnRingBuffSize) (buff.take len1) } }
        if len1 < len ∧ !dma.second then (.dma, chan)
        else
          let chan :=
            if len1 < len then
              { chan with compl := { chan.compl with
                buff := Ring.write chan.compl.buff 0 (buff.drop len1) } }
            else chan
          let chan := { chan with complWidx := add64 chan.complWidx len }
          if !dma.widx then (.dma, chan)
          else
            (.success, { chan with compl := { chan.compl with
              widx := chan.complWidx } })

end Barley
