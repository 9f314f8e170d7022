/-
The channel of simple packages between the cores and the host.  Block
addresses come from the host through the available ring and go back to it
through the completed ring; both rings lie in host memory, and the cores reach
them by DMA.
-/
import Barley.FrcTypes
import Barley.MachineWords
import Barley.RingWindow

namespace Barley

/-- `FRC_SIMPLE_RING_BUFF_SIZE`. -/
def frcSimpleRingBuffSize : Nat := 2 * 1024 * 10

/-- `frc_simple_package_ring_buff_t`, with its numbers as the cores read
them. -/
structure RingBuff where
  widx : Nat
  ridx : Nat
  buff : Nat → Nat

/-- A ring in memory that has been cleared. -/
def RingBuff.zero : RingBuff := ⟨0, 0, fun _ => 0⟩

/-- `__simple_package_ring_put`, with `none` for the return value 0. -/
def RingBuff.put (ring : RingBuff) (addr : Nat) : Option RingBuff :=
  if ring.ridx ≤ ring.widx ∧
      sub64 ring.widx ring.ridx < frcSimpleRingBuffSize then
    some
      { ring with
        buff := Function.update ring.buff
          (ring.widx % frcSimpleRingBuffSize) addr
        widx := add64 ring.widx 1 }
  else none

/-- `__simple_package_ring_get`, with `none` for the return value 0. -/
def RingBuff.get (ring : RingBuff) : Option (Nat × RingBuff) :=
  if ring.ridx < ring.widx ∧
      sub64 ring.widx ring.ridx ≤ frcSimpleRingBuffSize then
    some (ring.buff (ring.ridx % frcSimpleRingBuffSize),
      { ring with ridx := add64 ring.ridx 1 })
  else none

/-- `frcdrv_simple_package_chan_avail_init`: every block of the pools is put
into the ring. -/
def chanAvailInit (ring : RingBuff) (blocks : List Nat) : Option RingBuff :=
  blocks.foldlM RingBuff.put ring

/-- What the ring holds between its indexes. -/
def RingBuff.unread (ring : RingBuff) : List Nat :=
  Ring.window frcSimpleRingBuffSize ring.buff ring.ridx
    (sub64 ring.widx ring.ridx)

/-- The two rings in host memory, and `frcore_simple_package_chan_t` with the
cores' copies of their indexes. -/
structure SimpleChan where
  avail : RingBuff
  compl : RingBuff
  availWidx : Nat
  availRidx : Nat
  complWidx : Nat
  complRidx : Nat

namespace SimpleChan

/-- `len1`: the part of `len` slots from index `idx` on that lies before the
end of the ring. -/
def len1 (idx len : Nat) : Nat :=
  Ring.firstPiece frcSimpleRingBuffSize idx len

def syncAvail (chan : SimpleChan) : SimpleChan :=
  { chan with availWidx := chan.avail.widx }

/-- `alen`. -/
def availLen (chan : SimpleChan) : Nat :=
  sub64 chan.availWidx chan.availRidx

def availFirst (chan : SimpleChan) (len : Nat) : List Nat :=
  Ring.read chan.avail.buff (chan.availRidx % frcSimpleRingBuffSize)
    (len1 chan.availRidx len)

def availSecond (chan : SimpleChan) (len : Nat) : List Nat :=
  Ring.read chan.avail.buff 0 (len - len1 chan.availRidx len)

def storeAvail (chan : SimpleChan) (len : Nat) : SimpleChan :=
  { chan with availRidx := add64 chan.availRidx len }

def publishAvail (chan : SimpleChan) : SimpleChan :=
  { chan with avail := { chan.avail with ridx := chan.availRidx } }

def syncCompl (chan : SimpleChan) : SimpleChan :=
  { chan with complRidx := chan.compl.ridx }

/-- The check for room in the completed ring. -/
def complFull (chan : SimpleChan) (len : Nat) : Bool :=
  sub64 frcSimpleRingBuffSize len < sub64 chan.complWidx chan.complRidx

def complFirst (chan : SimpleChan) (idxBuff : List Nat) : SimpleChan :=
  { chan with compl := { chan.compl with
      buff := Ring.write chan.compl.buff
        (chan.complWidx % frcSimpleRingBuffSize)
        (idxBuff.take (len1 chan.complWidx idxBuff.length)) } }

def complSecond (chan : SimpleChan) (idxBuff : List Nat) : SimpleChan :=
  { chan with compl := { chan.compl with
      buff := Ring.write chan.compl.buff 0
        (idxBuff.drop (len1 chan.complWidx idxBuff.length)) } }

def storeCompl (chan : SimpleChan) (len : Nat) : SimpleChan :=
  { chan with complWidx := add64 chan.complWidx len }

def publishCompl (chan : SimpleChan) : SimpleChan :=
  { chan with compl := { chan.compl with widx := chan.complWidx } }

end SimpleChan

/-- Whether the copies of a call of `avail_get` succeed. -/
structure AvailDma where
  widx : Bool
  first : Bool
  second : Bool
  ridx : Bool

def AvailDma.ok : AvailDma := ⟨true, true, true, true⟩

/-- `frcore_simple_package_chan_avail_get`, with the addresses it leaves at the
start of `idx_buff`. -/
def chanAvailGet (dma : AvailDma) (chan : SimpleChan) (number : Nat) :
    Fre × SimpleChan × List Nat :=
  if !dma.widx then (.dma, chan, [])
  else
    let chan := chan.syncAvail
    if chan.availLen < number then (.nospace, chan, [])
    else if !dma.first then (.dma, chan, [])
    else
      let first := chan.availFirst number
      let split := SimpleChan.len1 chan.availRidx number < number
      if split ∧ !dma.second then (.dma, chan, first)
      else
        let idxBuff :=
          if split then first ++ chan.availSecond number else first
        let chan := chan.storeAvail number
        if !dma.ridx then (.dma, chan, idxBuff)
        else (.success, chan.publishAvail, idxBuff)

/-- Whether the copies of a call of `compl_put` succeed. -/
structure ComplDma where
  ridx : Bool
  first : Bool
  second : Bool
  widx : Bool

def ComplDma.ok : ComplDma := ⟨true, true, true, true⟩

/-- `frcore_simple_package_chan_compl_put` of the addresses in `idxBuff`. -/
def chanComplPut (dma : ComplDma) (chan : SimpleChan) (idxBuff : List Nat) :
    Fre × SimpleChan :=
  if !dma.ridx then (.dma, chan)
  else
    let chan := chan.syncCompl
    let len := idxBuff.length
    if chan.complFull len then (.nospace, chan)
    else if !dma.first then (.dma, chan)
    else
      let split := SimpleChan.len1 chan.complWidx len < len
      let chan := chan.complFirst idxBuff
      if split ∧ !dma.second then (.dma, chan)
      else
        let chan := if split then chan.complSecond idxBuff else chan
        let chan := chan.storeCompl len
        if !dma.widx then (.dma, chan)
        else (.success, chan.publishCompl)

end Barley
