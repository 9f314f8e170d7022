/-
How the driver sets its channels up.  A channel gets pools of pages from the
kernel, cuts them into blocks, and puts the blocks into its available ring; the
host maps the pages from the first pool to the end of the last one.
-/
import Barley.PacketFlowLaw

namespace Barley

/-- `FRC_DMA_POOL_SIZE`. -/
def frcDmaPoolSize : Nat := 4096 * 1024

/-- What the channels of simple packets and the channel of sessions have of
their own. -/
structure ChanKind where
  ringSize : Nat
  blockSize : Nat
  poolNumMax : Nat
  ringPools : Nat

/-- `frc_dma_simple_package_chan_t`, with both rings in one allocation. -/
def ChanKind.simplePackage : ChanKind :=
  ⟨frcSimpleRingBuffSize, frcDmaSimplePackageBlockSize, 10, 1⟩

/-- `frc_dma_ssn_chan_t`, with an allocation for each ring. -/
def ChanKind.ssn : ChanKind :=
  ⟨frcDmaSsnRingBuffSize, frcDmaSsnBlockSize, 783, 2⟩

/-- A channel of the driver; `avail` is its available ring, once there is one,
and `ringAddr` has the addresses of the rings. -/
structure FrcDmaChan where
  type : Nat
  ringAddr : List Nat
  poolAddr : Nat
  poolSize : Nat
  pool : Option (List Nat)
  avail : Option RingBuff

/-- A channel in memory that has been cleared. -/
def FrcDmaChan.zero : FrcDmaChan := ⟨0, [], 0, 0, none, none⟩

/-- `__simple_package_ring_put` and `__ssn_ring_put`, with `none` for the
return value 0. -/
def blockRingPut (size : Nat) (ring : RingBuff) (addr : Nat) : Option RingBuff :=
  if ring.ridx ≤ ring.widx ∧ sub64 ring.widx ring.ridx < size then
    some
      { ring with
        buff := Function.update ring.buff (ring.widx % size) addr
        widx := add64 ring.widx 1 }
  else none

theorem blockRingPut_simplePackage :
    blockRingPut frcSimpleRingBuffSize = RingBuff.put :=
  rfl

section Setup

/-- The addresses that the calls of `frcdrv_dma_pool_alloc` return, the first
of them with index `used`.  The calls end with the one that fails. -/
def allocPools (alloc : Nat → Option Nat) : (used count : Nat) → List Nat
  | _, 0 => []
  | used, count + 1 =>
      match alloc used with
      | none => []
      | some addr => addr :: allocPools alloc (used + 1) count

/-- `addr_min` of `pool_init`. -/
def addrMin (pool : List Nat) : Nat :=
  pool.tail.foldl (fun least addr => if addr < least then addr else least)
    (pool.headD 0)

/-- `addr_max` of `pool_init`. -/
def addrMax (pool : List Nat) : Nat :=
  pool.tail.foldl (fun most addr => if most < addr then addr else most)
    (pool.headD 0)

/-- `frcdrv_simple_package_chan_pool_init` and `frcdrv_ssn_chan_pool_init`.
The second result counts the allocations. -/
def chanPoolInit (alloc : Nat → Option Nat) (used : Nat) (chan : FrcDmaChan)
    (poolNum : Nat) : Fre × Nat × FrcDmaChan :=
  match alloc used with
  | none => (.memory, used + 1, chan)
  | some _ =>
      let got := allocPools alloc (used + 1) poolNum
      let pool := got ++ List.replicate (poolNum - got.length) 0
      if got.length < poolNum then
        (.memory, used + 1 + got.length + 1, { chan with pool := some pool })
      else
        (.success, used + 1 + poolNum,
          { chan with
            pool := some pool
            poolAddr := addrMin pool
            poolSize := add64 (sub64 (addrMax pool) (addrMin pool))
              frcDmaPoolSize })

/-- `frcdrv_simple_package_chan_dma_ctrl_init` and
`frcdrv_ssn_chan_dma_ctrl_init`. -/
def chanDmaCtrlInit (kind : ChanKind) (alloc : Nat → Option Nat) (used : Nat)
    (chan : FrcDmaChan) : Fre × Nat × FrcDmaChan :=
  match chan.pool with
  | none => (.init, used, chan)
  | some _ =>
      let got := allocPools alloc used kind.ringPools
      let avail := if got = [] then chan.avail else some .zero
      let chan := { chan with avail := avail, ringAddr := got }
      if got.length < kind.ringPools then
        (.memory, used + got.length + 1, chan)
      else (.success, used + kind.ringPools, chan)

/-- The blocks of the pools, in the order in which the loops of `avail_init`
come to them. -/
def ChanKind.blocks (kind : ChanKind) (pool : List Nat) : List Nat :=
  pool.flatMap fun poolAddr =>
    (List.range (frcDmaPoolSize / kind.blockSize)).map fun i =>
      add64 poolAddr (i * kind.blockSize)

/-- The puts of `avail_init`, up to the one that fails. -/
def putBlocks (size : Nat) : RingBuff → List Nat → Bool × RingBuff
  | ring, [] => (true, ring)
  | ring, addr :: rest =>
      match blockRingPut size ring addr with
      | none => (false, ring)
      | some next => putBlocks size next rest

/-- `frcdrv_simple_package_chan_avail_init` and `frcdrv_ssn_chan_avail_init`,
of a channel that has its ring. -/
def chanAvailInitOf (kind : ChanKind) (chan : FrcDmaChan) :
    Fre × FrcDmaChan :=
  match chan.pool with
  | none => (.init, chan)
  | some pool =>
      match putBlocks kind.ringSize (chan.avail.getD .zero)
          (kind.blocks pool) with
      | (false, ring) => (.init, { chan with avail := some ring })
      | (true, ring) => (.success, { chan with avail := some ring })

/-- `frcdrv_simple_package_chan_setup` and `frcdrv_ssn_chan_setup`. -/
def chanSetup (kind : ChanKind) (alloc : Nat → Option Nat) (used : Nat)
    (chan : FrcDmaChan) (type poolNum : Nat) : Fre × Nat × FrcDmaChan :=
  if kind.poolNumMax < poolNum then (.param, used, chan)
  else
    match chanPoolInit alloc used chan poolNum with
    | (.success, used, chan) =>
        match chanDmaCtrlInit kind alloc used chan with
        | (.success, used, chan) =>
            match chanAvailInitOf kind chan with
            | (.success, chan) => (.success, used, { chan with type := type })
            | (_, chan) => (.fail, used, chan)
        | (_, used, chan) => (.fail, used, chan)
    | (_, used, chan) => (.fail, used, chan)

/-- The channels of the driver. -/
structure FrcdrvChans where
  udp : FrcDmaChan
  rule : FrcDmaChan
  ssn : FrcDmaChan

/-- What `frcdrv_base_init_module` does for the channels; there is no result
when a setup fails. -/
def frcdrvChansInit (alloc : Nat → Option Nat) : Option FrcdrvChans :=
  match chanSetup .simplePackage alloc 0 .zero 0
      ChanKind.simplePackage.poolNumMax with
  | (.success, used, udp) =>
      match chanSetup .simplePackage alloc used .zero 1
          ChanKind.simplePackage.poolNumMax with
      | (.success, used, rule) =>
          match chanSetup .ssn alloc used .zero 2 ChanKind.ssn.poolNumMax with
          | (.success, _, ssn) => some ⟨udp, rule, ssn⟩
          | _ => none
      | _ => none
  | _ => none

/-- `pr_udp_pkt_get` and `pr_ssn_pkt_get`: where the application finds a block
when its pages begin at `appAddr`. -/
def prPktGet (chan : FrcDmaChan) (appAddr blockAddr : Nat) : Option Nat :=
  let offset := sub64 blockAddr chan.poolAddr
  if chan.poolSize < offset then none else some (appAddr + offset)

end Setup

end Barley
