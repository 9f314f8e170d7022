/-
The calls that move data between the card and the host.  Each command of a call
gets a completion byte from the driver, which the hardware writes when it is
done, and the core polls the byte for a while.
-/
import Barley.FrcTypes

namespace Barley

/-- `DMA_WAIT_INTERVAL`. -/
def dmaWaitInterval : Nat := 100000

/-- What the PCI driver sets: `MAX_PCI_DMA_LOCAL_BUF_SIZE`,
`FRCORE_MAX_DMA_POINTERS`, and `CVM_DRV_GET_PHYS`. -/
structure PciDriver where
  maxLocalBuf : Nat
  maxPointers : Nat
  phys : BitVec 64 → BitVec 64
  maxLocalBuf_pos : 0 < maxLocalBuf
  maxPointers_pos : 0 < maxPointers

/-- `FRCORE_DMA_BUFF_MAX`. -/
def PciDriver.buffMax (drv : PciDriver) : Nat :=
  drv.maxPointers * drv.maxLocalBuf

/-- An element of `lptr` with its element of `rptr`. -/
structure DmaPointer where
  localAddr : BitVec 64
  remoteAddr : BitVec 64
  size : Int
deriving DecidableEq

/-- The direction of a command. -/
inductive DmaDir where
  | recv
  | send
deriving DecidableEq, Repr

/-- How a command fares: the completion pointer that `cvm_get_dma_comp_ptr`
finds, what the driver returns for the command, and the poll that first sees
the completion byte written, if one ever would. -/
structure DmaEnv where
  comp : Option Nat
  rv : Int
  done : Option Nat

/-- A command that was given to the driver. -/
structure DmaCmd where
  dir : DmaDir
  pointers : List DmaPointer
  rv : Int
  done : Option Nat

/-- What a call does: it takes a completion pointer, gives a command to the
driver, or releases the pointer so many polls after that. -/
inductive DmaEvent where
  | take (comp : Nat)
  | submit (cmd : DmaCmd)
  | release (comp tick : Nat)

/-- Whether the completion byte is written at a poll. -/
def writtenBy (done : Option Nat) (tick : Nat) : Bool :=
  match done with
  | none => false
  | some poll => poll ≤ tick

/-- The loop that waits for the completion byte: `i` when it ends. -/
def dmaWait (done : Option Nat) : (rounds i : Nat) → Nat
  | 0, i => i
  | rounds + 1, i =>
      if writtenBy done i then i
      else if i + 1 < dmaWaitInterval then dmaWait done rounds (i + 1)
      else i + 1

/-- The part that `frcore_dma_scatter` and `_frcore_dma_gather` share: the
command, the wait, and the release of the completion pointer.  A wait that
takes too long is only printed. -/
def dmaIssue (dir : DmaDir) (pointers : List DmaPointer) (env : DmaEnv)
    (comp : Nat) : Fre × List DmaEvent :=
  if env.rv ≠ 0 then
    (.dma, [.submit ⟨dir, pointers, env.rv, env.done⟩, .release comp 0])
  else
    (.success, [.submit ⟨dir, pointers, env.rv, env.done⟩,
      .release comp (dmaWait env.done dmaWaitInterval 0)])

/-- `frcore_dma_scatter_desc_t`. -/
structure FrcoreDmaScatterDesc where
  number : Int
  size : Nat → Int
  localPtr : Nat → BitVec 64
  remoteAddr : Nat → BitVec 64

/-- The loop over the pieces of `frcore_dma_scatter`; `none` for
`FRE_PARAM`. -/
def scatterPointers (drv : PciDriver) (desc : FrcoreDmaScatterDesc) :
    List Nat → Option (List DmaPointer)
  | [] => some []
  | i :: rest =>
      if desc.size i = 0 then none
      else if drv.maxLocalBuf < desc.size i then none
      else
        (scatterPointers drv desc rest).map fun pointers =>
          ⟨drv.phys (desc.localPtr i), desc.remoteAddr i, desc.size i⟩ ::
            pointers

/-- `frcore_dma_scatter`. -/
def frcoreDmaScatter (drv : PciDriver) (dir : DmaDir)
    (desc : FrcoreDmaScatterDesc) (env : DmaEnv) : Fre × List DmaEvent :=
  if desc.number = 0 then (.param, [])
  else if drv.maxPointers < desc.number then (.param, [])
  else
    match env.comp with
    | none => (.memory, [])
    | some comp =>
        match scatterPointers drv desc (List.range desc.number.toNat) with
        | none => (.param, [.take comp, .release comp 0])
        | some pointers =>
            ((dmaIssue dir pointers env comp).1,
              .take comp :: (dmaIssue dir pointers env comp).2)

/-- The loop that cuts a range into pieces. -/
def gatherPointers (drv : PciDriver) (size : Int)
    (localAddr remoteAddr : BitVec 64) : List DmaPointer :=
  if size = 0 then []
  else
    let cur : Int := if drv.maxLocalBuf < size then drv.maxLocalBuf else size
    ⟨localAddr, remoteAddr, cur⟩ ::
      gatherPointers drv (size - cur) (localAddr + BitVec.ofInt 64 cur)
        (remoteAddr + BitVec.ofInt 64 cur)
termination_by size.natAbs
decreasing_by
  have hpos := drv.maxLocalBuf_pos
  split <;> omega

/-- `_frcore_dma_gather`. -/
def frcoreDmaGatherOne (drv : PciDriver) (size : Int)
    (localAddr remoteAddr : BitVec 64) (dir : DmaDir) (env : DmaEnv) :
    Fre × List DmaEvent :=
  if size = 0 then (.param, [])
  else if drv.buffMax < size then (.param, [])
  else
    match env.comp with
    | none => (.memory, [])
    | some comp =>
        let pointers := gatherPointers drv size (drv.phys localAddr) remoteAddr
        ((dmaIssue dir pointers env comp).1,
          .take comp :: (dmaIssue dir pointers env comp).2)

theorem PciDriver.buffMax_pos (drv : PciDriver) : 0 < drv.buffMax :=
  Nat.mul_pos drv.maxPointers_pos drv.maxLocalBuf_pos

/-- What the next round of `frcore_dma_gather` moves. -/
def PciDriver.piece (drv : PciDriver) (size : Int) : Int :=
  if drv.buffMax < size then drv.buffMax else size

theorem PciDriver.piece_lt (drv : PciDriver) {size : Int} (h : size ≠ 0) :
    (size - drv.piece size).natAbs < size.natAbs := by
  have hpos := drv.buffMax_pos
  rw [PciDriver.piece]
  split <;> omega

/-- `frcore_dma_gather`; the environment of round `k` is `env k`. -/
def frcoreDmaGather (drv : PciDriver) (dir : DmaDir)
    (localAddr remoteAddr : BitVec 64) (size : Int) (env : Nat → DmaEnv) :
    Fre × List DmaEvent :=
  if size = 0 then (.success, [])
  else
    let round := frcoreDmaGatherOne drv (drv.piece size) localAddr remoteAddr dir
      (env 0)
    if round.1 ≠ .success then round
    else
      let rest := frcoreDmaGather drv dir
        (localAddr + BitVec.ofInt 64 (drv.piece size))
        (remoteAddr + BitVec.ofInt 64 (drv.piece size))
        (size - drv.piece size) fun k => env (k + 1)
      (rest.1, round.2 ++ rest.2)
termination_by size.natAbs
decreasing_by exact drv.piece_lt ‹_›

end Barley
