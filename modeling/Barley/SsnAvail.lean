/-
Block addresses for sessions.  A fifo that has none left takes a batch from the
available ring, of a thousand, of a hundred or of one; the steps are the DMA
copies of the fifos and the writes of the host, in any order.
-/
import Barley.Ledger
import Barley.SsnFifo

namespace Barley

/-- The sizes that `frcore_ssn_get_one_block_addr` tries. -/
inductive SsnBatch where
  | thousand
  | hundred
  | one
deriving DecidableEq, Repr

def SsnBatch.size : SsnBatch → Nat
  | .thousand => 1000
  | .hundred => 100
  | .one => 1

/-- What is tried when a batch is not to be had. -/
def SsnBatch.next : SsnBatch → Option SsnBatch
  | .thousand => some .hundred
  | .hundred => some .one
  | .one => none

/-- The addresses that a fifo keeps, `avail_buff[0..avail_rdx)`. -/
def SsnFifo.cache (fifo : SsnFifo) : List Nat :=
  Ring.read fifo.availBuff 0 fifo.availRdx

/-- The addresses of a batch are kept. -/
def SsnFifo.fill (fifo : SsnFifo) (batch : SsnBatch) (got : List Nat) :
    SsnFifo :=
  { fifo with
    availBuff := Ring.write fifo.availBuff 0 got
    availRdx := batch.size }

/-- The address that is handed out next. -/
def SsnFifo.top (fifo : SsnFifo) : Nat :=
  fifo.availBuff (fifo.availRdx - 1)

def SsnFifo.pop (fifo : SsnFifo) : SsnFifo :=
  { fifo with availRdx := fifo.availRdx - 1 }

/-- `frcore_ssn_get_one_block_addr`, with `none` for `FRE_NOSPACE`. -/
def frcoreSsnGetOneBlockAddr (dma : SsnBatch → AvailDma) (chan : SsnChan)
    (fifo : SsnFifo) : Option Nat × SsnChan × SsnFifo :=
  if fifo.availRdx = 0 then
    match ssnChanAvailGet (dma .thousand) chan 1000 with
    | (.success, chan, got) =>
        let fifo := fifo.fill .thousand got
        (some fifo.top, chan, fifo.pop)
    | (_, chan, _) =>
        match ssnChanAvailGet (dma .hundred) chan 100 with
        | (.success, chan, got) =>
            let fifo := fifo.fill .hundred got
            (some fifo.top, chan, fifo.pop)
        | (_, chan, _) =>
            match ssnChanAvailGet (dma .one) chan 1 with
            | (.success, chan, got) =>
                let fifo := fifo.fill .one got
                (some fifo.top, chan, fifo.pop)
            | (_, chan, _) => (none, chan, fifo)
  else (some fifo.top, chan, fifo.pop)

/-- Where the fifo that has the lock of the available ring is: before its first
copy of addresses, before the second, or before the new read index is
written. -/
inductive SsnAvailOp (F : Type) where
  | free
  | first (fifo : F) (batch : SsnBatch)
  | second (fifo : F) (batch : SsnBatch) (got : List Nat)
  | publish (fifo : F) (batch : SsnBatch) (got : List Nat)

/-- The channel and the fifos.  `call` is the batch that the call on a fifo is
after, if its lock is held; `handedOut` are the addresses that have been
returned and not been put into the ring again; `pending` is one that the host
has written to the ring without having moved the write index.  `entered` counts
the addresses that have been put into the ring, and `entries` records what has
been handed out and put back, with a note for each copy of the read index that
has failed. -/
structure SsnAvailState (F : Type) where
  chan : SsnChan
  fifos : F → SsnFifo
  call : F → Option SsnBatch
  op : SsnAvailOp F
  handedOut : List Nat
  pending : Option Nat
  entered : Nat
  entries : List (Ledger.Entry Nat)

section Steps

variable {F : Type} [DecidableEq F]

namespace SsnAvailState

/-- The call on a fifo returns the last address that is kept. -/
def give (s : SsnAvailState F) (fifo : F) : SsnAvailState F :=
  { s with
    fifos := Function.update s.fifos fifo (s.fifos fifo).pop
    handedOut := (s.fifos fifo).top :: s.handedOut
    entries := .out (s.fifos fifo).top :: s.entries }

/-- A call that finds its fifo empty. -/
def miss (s : SsnAvailState F) (fifo : F) : SsnAvailState F :=
  { s with call := Function.update s.call fifo (some .thousand) }

/-- The batch is not to be had; without a next one the call returns
`FRE_NOSPACE`. -/
def fail (s : SsnAvailState F) (fifo : F) (batch : SsnBatch) :
    SsnAvailState F :=
  { s with op := .free, call := Function.update s.call fifo batch.next }

def sync (s : SsnAvailState F) : SsnAvailState F :=
  { s with chan := { s.chan with availWidx := s.chan.avail.widx } }

/-- The copy of the write index, and the check for enough addresses. -/
def copyWidx (s : SsnAvailState F) (fifo : F) (batch : SsnBatch) (ok : Bool) :
    SsnAvailState F :=
  if !ok then s.fail fifo batch
  else if sub64 s.sync.chan.availWidx s.sync.chan.availRidx < batch.size then
    s.sync.fail fifo batch
  else { s.sync with op := .first fifo batch }

def copyFirst (s : SsnAvailState F) (fifo : F) (batch : SsnBatch) (ok : Bool) :
    SsnAvailState F :=
  if !ok then s.fail fifo batch
  else
    let len1 := SsnChan.len1 s.chan.availRidx batch.size
    let got := Ring.read s.chan.avail.buff
      (s.chan.availRidx % frcDmaSsnRingBuffSize) len1
    { s with
      op := if len1 < batch.size then .second fifo batch got
        else .publish fifo batch got }

def copySecond (s : SsnAvailState F) (fifo : F) (batch : SsnBatch)
    (got : List Nat) (ok : Bool) : SsnAvailState F :=
  if !ok then s.fail fifo batch
  else
    let len1 := SsnChan.len1 s.chan.availRidx batch.size
    { s with
      op := .publish fifo batch
        (got ++ Ring.read s.chan.avail.buff 0 (batch.size - len1)) }

/-- The new read index is stored. -/
def store (s : SsnAvailState F) (batch : SsnBatch) : SsnAvailState F :=
  { s with
    chan := { s.chan with availRidx := add64 s.chan.availRidx batch.size } }

/-- The batch is kept by the fifo. -/
def keep (s : SsnAvailState F) (fifo : F) (batch : SsnBatch)
    (got : List Nat) : SsnAvailState F :=
  { s with
    chan := { s.chan with avail := { s.chan.avail with
      ridx := s.chan.availRidx } }
    op := .free
    call := Function.update s.call fifo none
    fifos := Function.update s.fifos fifo ((s.fifos fifo).fill batch got) }

/-- The read index is stored and copied to the host.  The index stays when the
copy fails. -/
def copyRidx (s : SsnAvailState F) (fifo : F) (batch : SsnBatch)
    (got : List Nat) (ok : Bool) : SsnAvailState F :=
  if !ok then
    { (s.store batch).fail fifo batch with entries := .note :: s.entries }
  else ((s.store batch).keep fifo batch got).give fifo

/-- The host writes an address to the slot of its write index. -/
def hostWrite (s : SsnAvailState F) (addr : Nat) : SsnAvailState F :=
  { s with
    chan := { s.chan with avail := { s.chan.avail with
      buff := Function.update s.chan.avail.buff
        (s.chan.avail.widx % frcDmaSsnRingBuffSize) addr } }
    pending := some addr }

/-- The host moves its write index. -/
def hostPublish (s : SsnAvailState F) (addr : Nat) : SsnAvailState F :=
  { s with
    chan := { s.chan with avail := { s.chan.avail with
      widx := add64 s.chan.avail.widx 1 } }
    handedOut := s.handedOut.erase addr
    pending := none
    entered := s.entered + 1
    entries := .back addr :: s.entries }

end SsnAvailState

/-- One step of a fifo or of the host.  The host compares with a read index that
it has seen at some time. -/
inductive SsnAvailStep : SsnAvailState F → SsnAvailState F → Prop
  | hit {s : SsnAvailState F} (fifo : F) (hcall : s.call fifo = none)
      (hsome : 0 < (s.fifos fifo).availRdx) : SsnAvailStep s (s.give fifo)
  | miss {s : SsnAvailState F} (fifo : F) (hcall : s.call fifo = none)
      (hnone : (s.fifos fifo).availRdx = 0) : SsnAvailStep s (s.miss fifo)
  | copyWidx {s : SsnAvailState F} {fifo : F} {batch : SsnBatch} (ok : Bool)
      (hcall : s.call fifo = some batch) (hlock : s.op = .free) :
      SsnAvailStep s (s.copyWidx fifo batch ok)
  | copyFirst {s : SsnAvailState F} {fifo : F} {batch : SsnBatch} (ok : Bool)
      (hop : s.op = .first fifo batch) :
      SsnAvailStep s (s.copyFirst fifo batch ok)
  | copySecond {s : SsnAvailState F} {fifo : F} {batch : SsnBatch}
      {got : List Nat} (ok : Bool) (hop : s.op = .second fifo batch got) :
      SsnAvailStep s (s.copySecond fifo batch got ok)
  | copyRidx {s : SsnAvailState F} {fifo : F} {batch : SsnBatch}
      {got : List Nat} (ok : Bool) (hop : s.op = .publish fifo batch got) :
      SsnAvailStep s (s.copyRidx fifo batch got ok)
  | hostWrite {s : SsnAvailState F} {addr seen : Nat}
      (hidle : s.pending = none) (hmem : addr ∈ s.handedOut)
      (hseen : seen ≤ s.chan.avail.ridx) (hle : seen ≤ s.chan.avail.widx)
      (hroom : sub64 s.chan.avail.widx seen < frcDmaSsnRingBuffSize) :
      SsnAvailStep s (s.hostWrite addr)
  | hostPublish {s : SsnAvailState F} {addr : Nat}
      (hpending : s.pending = some addr) :
      SsnAvailStep s (s.hostPublish addr)

/-- Every state that some order of steps leads to. -/
inductive SsnAvailReachable (start : SsnAvailState F) :
    SsnAvailState F → Prop
  | start : SsnAvailReachable start start
  | step {s s' : SsnAvailState F} (h : SsnAvailReachable start s)
      (hstep : SsnAvailStep s s') : SsnAvailReachable start s'

end Steps

/-- A ring that holds distinct block addresses, and fifos that keep none. -/
structure SsnAvailStart (F : Type) where
  ring : RingBuff
  fifos : F → SsnFifo
  le : ring.ridx ≤ ring.widx
  room : ring.widx ≤ ring.ridx + frcDmaSsnRingBuffSize
  empty : ∀ fifo, (fifos fifo).availRdx = 0
  distinct : (Ring.window frcDmaSsnRingBuffSize ring.buff ring.ridx
    (ring.widx - ring.ridx)).Nodup

section Start

variable {F : Type}

/-- The block addresses. -/
def SsnAvailStart.blocks (start : SsnAvailStart F) : List Nat :=
  Ring.window frcDmaSsnRingBuffSize start.ring.buff start.ring.ridx
    (start.ring.widx - start.ring.ridx)

def SsnAvailStart.state (start : SsnAvailStart F) : SsnAvailState F where
  chan :=
    { avail := start.ring
      compl := .zero
      availWidx := start.ring.widx
      availRidx := start.ring.ridx
      complWidx := 0
      complRidx := 0 }
  fifos := start.fifos
  call := fun _ => none
  op := .free
  handedOut := []
  pending := none
  entered := start.ring.widx
  entries := []

/-- The unread part of the available ring. -/
def SsnAvailState.unread (s : SsnAvailState F) : List Nat :=
  Ring.window frcDmaSsnRingBuffSize s.chan.avail.buff s.chan.availRidx
    (sub64 s.chan.avail.widx s.chan.availRidx)

end Start

end Barley
