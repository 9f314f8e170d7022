/-
A core's fifo of packets and its way to the host.  The packets wait in cells
until the core takes block addresses from the available ring, scatters the
cells to the blocks by DMA, and puts the addresses into the completed ring.
-/
import Barley.SimpleChan

namespace Barley

/-- `FRCORE_MAX_DMA_POINTERS`, which the SDK sets. -/
structure DmaLimits where
  pointers : Nat
  pos : 0 < pointers

/-- `FRCORE_CORE_FIFO_NUM`. -/
def DmaLimits.coreFifoNum (lim : DmaLimits) : Nat := lim.pointers * 16

/-- `FRCORE_CHAN_POST_LWM`. -/
def DmaLimits.chanPostLwm (lim : DmaLimits) : Nat := lim.pointers * 16

structure FifoCell where
  pktSize : Nat
  data : List UInt8

/-- `frcore_simple_package_fifo_t`. -/
structure SimpleFifo where
  localWidx : Nat
  localRidx : Nat
  fifoCell : Nat → FifoCell

/-- `local_num`. -/
def SimpleFifo.localNum (fifo : SimpleFifo) : Nat :=
  sub64 fifo.localWidx fifo.localRidx

/-- `frcore_simple_package_fifo_add`. -/
def SimpleFifo.add (lim : DmaLimits) (fifo : SimpleFifo)
    (hdr info payload : List UInt8) : Fre × SimpleFifo :=
  let pktLen := hdr.length + info.length + payload.length
  if 2048 < pktLen then (.exceed, fifo)
  else if lim.coreFifoNum ≤ fifo.localNum then (.nospace, fifo)
  else
    (.success,
      { fifo with
        fifoCell := Function.update fifo.fifoCell
          (fifo.localWidx % lim.coreFifoNum)
          ⟨pktLen, hdr ++ payload ++ info⟩
        localWidx := add64 fifo.localWidx 1 })

/-- One pointer of `frcore_dma_scatter_desc_t`: the block, the cell whose data
goes there, and the size. -/
structure ScatterEntry where
  remoteAddr : Nat
  localPtr : Nat
  size : Nat
deriving DecidableEq

/-- The pointer of the cell at distance `cur` from the head. -/
def SimpleFifo.entry (lim : DmaLimits) (fifo : SimpleFifo) (addr cur : Nat) :
    ScatterEntry :=
  let curOffset := add64 fifo.localRidx cur % lim.coreFifoNum
  { remoteAddr := add64 addr frcDmaOffset
    localPtr := curOffset
    size := (fifo.fifoCell curOffset).pktSize }

section Post

variable (lim : DmaLimits) (fifo : SimpleFifo) (scatter : Nat → Bool)
  (idxBuff : List Nat)

/-- The pointers of `pktNumb` cells from `cur` on. -/
def postEntries (cur pktNumb : Nat) : List ScatterEntry :=
  (List.range pktNumb).map fun i =>
    fifo.entry lim (idxBuff.getD (cur + i) 0) (cur + i)

/-- The loop of `frcore_simple_package_chan_post_pkt`, with the outcome of the
scatter of each batch.  `cur` is `pkt_posted` at its head.  The second result
lists what has been written. -/
def postLoop : (fuel batch pktRemain pktPosted : Nat) →
    Nat × List ScatterEntry
  | 0, _, _, pktPosted => (pktPosted, [])
  | fuel + 1, batch, pktRemain, pktPosted =>
      if pktRemain = 0 then (pktPosted, [])
      else
        let pktNumb :=
          if lim.pointers < pktRemain then lim.pointers else pktRemain
        if !scatter batch then (pktPosted, [])
        else
          let rest := postLoop fuel (batch + 1) (pktRemain - pktNumb)
            (pktPosted + pktNumb)
          (rest.1, postEntries lim fifo idxBuff pktPosted pktNumb ++ rest.2)

/-- `frcore_simple_package_chan_post_pkt`.  Every batch has a packet, so the
loop ends within `localNum` batches. -/
def chanPostPkt (localNum : Nat) : Nat × List ScatterEntry :=
  postLoop lim fifo scatter idxBuff localNum 0 localNum 0

theorem postEntries_append (cur first second : Nat) :
    postEntries lim fifo idxBuff cur (first + second) =
      postEntries lim fifo idxBuff cur first ++
        postEntries lim fifo idxBuff (cur + first) second := by
  simp only [postEntries, List.range_add, List.map_append, List.map_map]
  congr 1
  refine List.map_congr_left fun i _ => ?_
  simp [Nat.add_assoc]

/-- The loop writes the packets before the first batch that fails. -/
theorem postLoop_spec (fuel batch pktRemain pktPosted : Nat)
    (hfuel : pktRemain ≤ fuel) :
    ∃ count, count ≤ pktRemain ∧
      postLoop lim fifo scatter idxBuff fuel batch pktRemain pktPosted =
        (pktPosted + count, postEntries lim fifo idxBuff pktPosted count) ∧
      (count = pktRemain ↔ ∀ next, next * lim.pointers < pktRemain →
        scatter (batch + next) = true) := by
  induction fuel generalizing batch pktRemain pktPosted with
  | zero =>
      obtain rfl := Nat.le_zero.mp hfuel
      exact ⟨0, Nat.le_refl 0, rfl, by simp⟩
  | succ fuel ih =>
      rw [postLoop]
      by_cases hnone : pktRemain = 0
      · subst hnone
        exact ⟨0, Nat.le_refl 0, if_pos rfl, by simp⟩
      rw [if_neg hnone]
      by_cases hscatter : scatter batch = true
      · have hpos := lim.pos
        simp only [hscatter, Bool.not_true, Bool.false_eq_true, if_false]
        by_cases hmore : lim.pointers < pktRemain
        · rw [if_pos hmore]
          obtain ⟨count, hle, hrest, hall⟩ := ih (batch + 1)
            (pktRemain - lim.pointers) (pktPosted + lim.pointers) (by omega)
          refine ⟨lim.pointers + count, by omega, ?_, ?_⟩
          · rw [hrest, postEntries_append, Nat.add_assoc]
          · have hcount : lim.pointers + count = pktRemain ↔
                count = pktRemain - lim.pointers := by omega
            rw [hcount, hall]
            constructor
            · intro h next hnext
              cases next with
              | zero => exact hscatter
              | succ next =>
                  rw [Nat.succ_mul] at hnext
                  rw [Nat.add_comm next 1, ← Nat.add_assoc]
                  exact h next (by omega)
            · intro h next hnext
              rw [Nat.add_assoc, Nat.add_comm 1 next]
              refine h (next + 1) ?_
              rw [Nat.succ_mul]
              omega
        · rw [if_neg hmore, Nat.sub_self]
          obtain ⟨count, hle, hrest, _⟩ := ih (batch + 1) 0
            (pktPosted + pktRemain) (Nat.zero_le _)
          obtain rfl := Nat.le_zero.mp hle
          refine ⟨pktRemain, Nat.le_refl _, ?_, ?_⟩
          · rw [hrest]
            simp [postEntries]
          · refine iff_of_true rfl fun next hnext => ?_
            cases next with
            | zero => exact hscatter
            | succ next =>
                rw [Nat.succ_mul] at hnext
                omega
      · rw [Bool.not_eq_true] at hscatter
        simp only [hscatter, Bool.not_false, if_true]
        refine ⟨0, Nat.zero_le _, rfl, ?_⟩
        refine iff_of_false (Ne.symm hnone) fun h => ?_
        have hfirst := h 0 (by omega)
        rw [Nat.add_zero, hscatter] at hfirst
        cases hfirst

theorem chanPostPkt_spec (localNum : Nat) :
    ∃ count, count ≤ localNum ∧
      chanPostPkt lim fifo scatter idxBuff localNum =
        (count, postEntries lim fifo idxBuff 0 count) ∧
      (count = localNum ↔ ∀ batch, batch * lim.pointers < localNum →
        scatter batch = true) := by
  have hloop := postLoop_spec lim fifo scatter idxBuff localNum 0 localNum 0
    (Nat.le_refl _)
  simp only [Nat.zero_add] at hloop
  exact hloop

end Post

/-- The outcomes of the DMA operations of one round. -/
structure PostDma where
  avail : AvailDma
  scatter : Nat → Bool
  compl : ComplDma

/-- What `fifo_post` works on; `exhaust` is `udp_block_exhaust` of the core,
and `written` lists the scatters that succeeded. -/
structure PostState where
  chan : SimpleChan
  fifo : SimpleFifo
  exhaust : Bool
  written : List ScatterEntry

section FifoPost

variable (lim : DmaLimits) (dma : Nat → PostDma) (resting : Nat → Bool)

/-- The loop of `frcore_simple_package_fifo_post`.  `resting` says whether the
rest after the last shortage of blocks still lasts in a round. -/
def fifoPostLoop : (fuel round : Nat) → PostState → (localNum : Nat) →
    PostState
  | 0, _, s, _ => s
  | fuel + 1, round, s, localNum =>
      if localNum = 0 then s
      else
        let postNum :=
          if localNum < lim.chanPostLwm then localNum else lim.chanPostLwm
        if s.exhaust && resting round then s
        else
          match chanAvailGet (dma round).avail s.chan postNum with
          | (.nospace, chan, _) => { s with chan := chan, exhaust := true }
          | (.success, chan, idxBuff) =>
              let posted := chanPostPkt lim s.fifo (dma round).scatter idxBuff
                postNum
              let written := s.written ++ posted.2
              -- the number of packets that were posted only counts errors
              match chanComplPut (dma round).compl chan idxBuff with
              | (.success, chan) =>
                  fifoPostLoop fuel (round + 1)
                    { chan := chan
                      fifo := { s.fifo with
                        localRidx := add64 s.fifo.localRidx postNum }
                      exhaust := false
                      written := written }
                    (localNum - postNum)
              | (_, chan) =>
                  { s with chan := chan, exhaust := false, written := written }
          | (_, chan, _) => { s with chan := chan }

/-- `frcore_simple_package_fifo_post`. -/
def fifoPost (chan : SimpleChan) (fifo : SimpleFifo) (exhaust flag : Bool) :
    PostState :=
  let s : PostState := ⟨chan, fifo, exhaust, []⟩
  if flag then
    if fifo.localNum ≠ lim.chanPostLwm then s
    else fifoPostLoop lim dma resting fifo.localNum 0 s fifo.localNum
  else
    if fifo.localNum = 0 then s
    else fifoPostLoop lim dma resting fifo.localNum 0 s fifo.localNum

end FifoPost

end Barley
