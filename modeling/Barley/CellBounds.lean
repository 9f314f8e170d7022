/-
Sizes of packets, of fifo cells and of blocks.  The check of a packet's length
uses a constant of its own, which is larger than the data array of a cell; for
a payload of a session nothing is checked at all.
-/
import Barley.SsnPosting

namespace Barley

/-- `FRC_DMA_SIMPLE_PACKAGE_BLOCK_SIZE`. -/
def frcDmaSimplePackageBlockSize : Nat := 2 * 1024

/-- `FRC_DMA_SIMPLE_PACKAGE_DATA_SIZE`. -/
def frcDmaSimplePackageDataSize : Nat :=
  frcDmaSimplePackageBlockSize - frcDmaOffset

/-- `FRC_PAYLOAD_LEN_MAX`. -/
def frcPayloadLenMax : Nat := 1600

/-- The bytes of a header, of the record about the packet, and of the payload,
whose length is the `total_paylen` of the header. -/
structure PacketBytes where
  hdr : List UInt8
  info : List UInt8
  payload : List UInt8
  hdr_length : hdr.length = sizeofDmaHdr
  info_length : info.length = sizeofPktInfo
  payload_lt : payload.length < 2 ^ 16

/-- A rule id has two bytes. -/
structure TagidBytes where
  bytes : List UInt8
  length : bytes.length = 2

section Rule

variable (lim : DmaLimits) (fifo : SimpleFifo) (packet : PacketBytes)

/-- `frcore_simple_package_fifo_add` of a packet. -/
def frcoreSimplePackageFifoAdd : Fre × SimpleFifo :=
  fifo.add lim packet.hdr packet.info packet.payload

/-- `frcore_rule_packet_fifo_add`. -/
def frcoreRulePacketFifoAdd (tagid : TagidBytes) : Fre × SimpleFifo :=
  let pktLen := packet.hdr.length + packet.info.length +
    packet.payload.length + 2
  if 2048 < pktLen then (.exceed, fifo)
  else if lim.coreFifoNum ≤ fifo.localNum then (.nospace, fifo)
  else
    (.success,
      { fifo with
        fifoCell := Function.update fifo.fifoCell
          (fifo.localWidx % lim.coreFifoNum)
          ⟨pktLen, packet.hdr ++ tagid.bytes ++ packet.payload ++ packet.info⟩
        localWidx := add64 fifo.localWidx 1 })

/-- The rule id is put as if it were the start of the payload. -/
theorem frcoreRulePacketFifoAdd_eq (tagid : TagidBytes) :
    frcoreRulePacketFifoAdd lim fifo packet tagid =
      fifo.add lim packet.hdr packet.info (tagid.bytes ++ packet.payload) := by
  have hlen : packet.hdr.length + packet.info.length +
      (tagid.bytes ++ packet.payload).length =
        packet.hdr.length + packet.info.length + packet.payload.length + 2 := by
    rw [List.length_append, tagid.length]
    omega
  unfold frcoreRulePacketFifoAdd SimpleFifo.add
  simp only [hlen, List.append_assoc]

end Rule

/-- What `frcore_ssn_fifo_add` is given.  Of the payload, the first
`payload_len` bytes are read. -/
structure SsnFifoArgs where
  dmaType : FrcSsnDmaType
  hdr : FrcDmaHdr
  info : FrcDmaPktInfo
  payload : Nat → UInt8
  blockAddr : Nat
  infoOffset : Nat
  payloadOffset : Nat

/-- What is written to the cell. -/
def SsnFifoArgs.fill (args : SsnFifoArgs) (cell : FrcoreSsnFifoCell) :
    FrcoreSsnFifoCell :=
  let cell :=
    if args.dmaType = .dmaHead then { cell with head := args.hdr }
    else
      { cell with
        infoOffset := args.infoOffset
        payloadOffset := args.payloadOffset
        payloadSize := args.info.payloadLen
        payload := (List.range args.info.payloadLen).map args.payload
        info := args.info }
  { cell with blockAddr := args.blockAddr, type := args.dmaType }

/-- The slot of the next cell. -/
def SsnFifo.nextSlot (lim : DmaLimits) (fifo : SsnFifo) : Nat :=
  fifo.localWidx % lim.coreFifoNum

/-- `frcore_ssn_fifo_add`, where the posting of a full fifo has gone through
some rounds.  As long as it goes on, there is no result. -/
def frcoreSsnFifoAdd (lim : DmaLimits) (rounds : Nat → SsnPostRound)
    (chan : SsnChan) (fifo : SsnFifo) (args : SsnFifoArgs) (t : Nat) :
    Option (Fre × SsnPosting) :=
  match ssnFifoPostNoLock lim rounds chan fifo true t with
  | .running _ => none
  | .left s =>
      if lim.coreFifoNum ≤ s.fifo.localNum then some (.nospace, s)
      else
        some (.success, { s with fifo := { s.fifo with
          fifoCell := Function.update s.fifo.fifoCell (s.fifo.nextSlot lim)
            (args.fill (s.fifo.fifoCell (s.fifo.nextSlot lim)))
          localWidx := add64 s.fifo.localWidx 1 } })

/-- The bytes of a cell fit in its data array, and whenever the cell is posted
later, they stay inside the block that they go to. -/
structure FifoCell.InBounds (lim : DmaLimits) (cell : FifoCell) : Prop where
  fits : cell.data.length ≤ frcDmaSimplePackageDataSize
  stays : ∀ (later : SimpleFifo) (addr cur : Nat),
    later.fifoCell (add64 later.localRidx cur % lim.coreFifoNum) = cell →
    addr + frcDmaSimplePackageBlockSize ≤ 2 ^ 64 →
    addr ≤ (later.entry lim addr cur).remoteAddr ∧
      (later.entry lim addr cur).remoteAddr + (later.entry lim addr cur).size ≤
        addr + frcDmaSimplePackageBlockSize

section Add

variable {lim : DmaLimits} {fifo next : SimpleFifo}
  {hdr info payload : List UInt8}

/-- An accepted packet is in the cell at the old write index, with its size. -/
theorem SimpleFifo.add_accepted
    (h : fifo.add lim hdr info payload = (.success, next)) :
    next.fifoCell (fifo.localWidx % lim.coreFifoNum) =
      ⟨hdr.length + info.length + payload.length, hdr ++ payload ++ info⟩ := by
  unfold SimpleFifo.add at h
  simp only at h
  split at h
  · cases h
  · split at h
    · cases h
    · cases h
      exact Function.update_self ..

theorem SimpleFifo.add_success
    (hsmall : hdr.length + info.length + payload.length ≤ 2048)
    (hroom : fifo.localNum < lim.coreFifoNum) :
    ∃ next, fifo.add lim hdr info payload = (.success, next) := by
  unfold SimpleFifo.add
  simp only
  rw [if_neg (Nat.not_lt.mpr hsmall), if_neg (Nat.not_le.mpr hroom)]
  exact ⟨_, rfl⟩

/-- Both bounds are bounds on the size. -/
theorem FifoCell.inBounds_iff {cell : FifoCell}
    (hsize : cell.pktSize = cell.data.length) :
    cell.InBounds lim ↔ cell.pktSize ≤ frcDmaSimplePackageDataSize := by
  constructor
  · intro h
    rw [hsize]
    exact h.fits
  · intro h
    refine ⟨hsize ▸ h, fun later addr cur hcell haddr => ?_⟩
    have hblock : frcDmaSimplePackageDataSize + frcDmaOffset =
        frcDmaSimplePackageBlockSize := rfl
    have hpos : 0 < frcDmaSimplePackageDataSize := by decide
    have hremote : (later.entry lim addr cur).remoteAddr =
        addr + frcDmaOffset := add64_eq (by omega)
    have hentry : (later.entry lim addr cur).size = cell.pktSize :=
      congrArg FifoCell.pktSize hcell
    rw [hremote, hentry]
    omega

theorem SimpleFifo.add_inBounds_iff
    (h : fifo.add lim hdr info payload = (.success, next)) :
    (next.fifoCell (fifo.localWidx % lim.coreFifoNum)).InBounds lim ↔
      hdr.length + info.length + payload.length ≤
        frcDmaSimplePackageDataSize := by
  rw [SimpleFifo.add_accepted h]
  refine FifoCell.inBounds_iff ?_
  simp only [List.length_append]
  omega

end Add

/-- The payload of every cell fits in its array. -/
def SsnFifo.PayloadsFit (fifo : SsnFifo) : Prop :=
  ∀ slot, (fifo.fifoCell slot).payload.length ≤ frcPayloadLenMax

section Ssn

variable {lim : DmaLimits} {rounds : Nat → SsnPostRound} {chan : SsnChan}
  {fifo : SsnFifo} {args : SsnFifoArgs} {t : Nat} {next : SsnPosting}

/-- Posting reads the cells only. -/
theorem ssnPostingStep_fifoCell {round : SsnPostRound} {s : SsnPosting} :
    (∃ next, ssnPostingStep lim round s = .left next ∧
      next.fifo.fifoCell = s.fifo.fifoCell) ∨
    ∃ next, ssnPostingStep lim round s = .running next ∧
      next.fifo.fifoCell = s.fifo.fifoCell := by
  unfold ssnPostingStep
  split
  · exact .inl ⟨s, rfl, rfl⟩
  · simp only
    split
    · exact .inr ⟨_, rfl, rfl⟩
    · exact .inl ⟨_, rfl, rfl⟩

/-- The cells of a loop that goes on or has been left. -/
def SsnLoop.fifoCell : SsnLoop → Nat → FrcoreSsnFifoCell
  | .running s => s.fifo.fifoCell
  | .left s => s.fifo.fifoCell

theorem ssnPostingStart_fifoCell (lim : DmaLimits) (chan : SsnChan)
    (fifo : SsnFifo) (flag : Bool) :
    (ssnPostingStart lim chan fifo flag).fifoCell = fifo.fifoCell := by
  unfold ssnPostingStart
  simp only
  split
  · split <;> rfl
  · split <;> rfl

theorem ssnPostingRun_fifoCell (lim : DmaLimits)
    (rounds : Nat → SsnPostRound) (start : SsnLoop) (t : Nat) :
    (ssnPostingRun lim rounds start t).fifoCell = start.fifoCell := by
  induction t with
  | zero => rfl
  | succ t ih =>
      rw [← ih, ssnPostingRun]
      cases ssnPostingRun lim rounds start t with
      | left s => rfl
      | running s =>
          rcases @ssnPostingStep_fifoCell lim (rounds t) s with
            ⟨next, heq, hcell⟩ | ⟨next, heq, hcell⟩
          · simp only [heq]
            exact hcell
          · simp only [heq]
            exact hcell

/-- An accepted call has written one cell, and no other. -/
theorem frcoreSsnFifoAdd_accepted
    (h : frcoreSsnFifoAdd lim rounds chan fifo args t = some (.success, next)) :
    ∃ slot, next.fifo.fifoCell = Function.update fifo.fifoCell slot
      (args.fill (fifo.fifoCell slot)) := by
  have hcells := (ssnPostingRun_fifoCell lim rounds
    (ssnPostingStart lim chan fifo true) t).trans
      (ssnPostingStart_fifoCell lim chan fifo true)
  unfold frcoreSsnFifoAdd ssnFifoPostNoLock at h
  split at h
  · cases h
  · rename_i s hposted
    rw [hposted] at hcells
    have hcells : s.fifo.fifoCell = fifo.fifoCell := hcells
    split at h
    · cases h
    · cases h
      exact ⟨s.fifo.nextSlot lim, by rw [hcells]⟩

theorem SsnFifoArgs.length_fill (cell : FrcoreSsnFifoCell) :
    (args.fill cell).payload.length =
      if args.dmaType = .dmaHead then cell.payload.length
      else args.info.payloadLen := by
  unfold SsnFifoArgs.fill
  by_cases hhead : args.dmaType = .dmaHead
  · simp [hhead]
  · simp [hhead]

theorem frcoreSsnFifoAdd_payloadsFit_iff (hfit : fifo.PayloadsFit)
    (h : frcoreSsnFifoAdd lim rounds chan fifo args t = some (.success, next)) :
    next.fifo.PayloadsFit ↔
      args.dmaType = .dmaHead ∨ args.info.payloadLen ≤ frcPayloadLenMax := by
  obtain ⟨slot, hcells⟩ := frcoreSsnFifoAdd_accepted h
  unfold SsnFifo.PayloadsFit
  rw [hcells]
  constructor
  · intro hnext
    have hslot := hnext slot
    rw [Function.update_self, SsnFifoArgs.length_fill] at hslot
    by_cases hhead : args.dmaType = .dmaHead
    · exact .inl hhead
    · rw [if_neg hhead] at hslot
      exact .inr hslot
  · intro hargs other
    by_cases hslot : other = slot
    · subst hslot
      rw [Function.update_self, SsnFifoArgs.length_fill]
      split
      · exact hfit other
      · rename_i hnot
        exact hargs.resolve_left hnot
    · rw [Function.update_of_ne hslot]
      exact hfit other

end Ssn

/-- For every accepted packet, the bounds hold exactly when its header, record
and payload, with the rule id where there is one, are no longer than the data
array of a cell; and the payload of a session fits exactly when it is no longer
than its array, or when a header is put instead. -/
theorem accepted_inBounds_iff (lim : DmaLimits) :
    (∀ fifo packet next,
      frcoreSimplePackageFifoAdd lim fifo packet = (.success, next) →
      ((next.fifoCell (fifo.localWidx % lim.coreFifoNum)).InBounds lim ↔
        sizeofDmaHdr + sizeofPktInfo + packet.payload.length ≤
          frcDmaSimplePackageDataSize)) ∧
    (∀ fifo packet tagid next,
      frcoreRulePacketFifoAdd lim fifo packet tagid = (.success, next) →
      ((next.fifoCell (fifo.localWidx % lim.coreFifoNum)).InBounds lim ↔
        sizeofDmaHdr + sizeofPktInfo + (2 + packet.payload.length) ≤
          frcDmaSimplePackageDataSize)) ∧
    ∀ rounds chan fifo args t next, fifo.PayloadsFit →
      frcoreSsnFifoAdd lim rounds chan fifo args t = some (.success, next) →
      (next.fifo.PayloadsFit ↔
        args.dmaType = .dmaHead ∨
          args.info.payloadLen ≤ frcPayloadLenMax) := by
  refine ⟨fun fifo packet next h => ?_, fun fifo packet tagid next h => ?_,
    fun _ _ _ _ _ _ => frcoreSsnFifoAdd_payloadsFit_iff⟩
  · have hbounds := SimpleFifo.add_inBounds_iff h
    rwa [packet.hdr_length, packet.info_length] at hbounds
  · rw [frcoreRulePacketFifoAdd_eq] at h
    have hbounds := SimpleFifo.add_inBounds_iff h
    rwa [List.length_append, tagid.length, packet.hdr_length,
      packet.info_length] at hbounds

section Long

/-- A packet of zeros. -/
def zeroPacket (paylen : Nat) (h : paylen < 2 ^ 16) : PacketBytes where
  hdr := List.replicate sizeofDmaHdr 0
  info := List.replicate sizeofPktInfo 0
  payload := List.replicate paylen 0
  hdr_length := List.length_replicate
  info_length := List.length_replicate
  payload_lt := by rwa [List.length_replicate]

/-- An empty fifo. -/
def emptyFifo : SimpleFifo := ⟨0, 0, fun _ => ⟨0, []⟩⟩

/-- A payload of 1976 bytes is accepted, but 2048 bytes do not fit in a
cell. -/
theorem zeroPacket_not_inBounds :
    ¬ ∀ lim fifo packet next,
      frcoreSimplePackageFifoAdd lim fifo packet = (.success, next) →
      (next.fifoCell (fifo.localWidx % lim.coreFifoNum)).InBounds lim := by
  intro hbounds
  have hlt : 1976 < 2 ^ 16 := by decide
  have hlength : (zeroPacket 1976 hlt).hdr.length +
      (zeroPacket 1976 hlt).info.length +
      (zeroPacket 1976 hlt).payload.length = 2048 := by
    simp only [zeroPacket, List.length_replicate]
    rfl
  have hroom : emptyFifo.localNum < DmaLimits.coreFifoNum ⟨14, by decide⟩ := by
    decide
  obtain ⟨next, haccepted⟩ :=
    SimpleFifo.add_success (Nat.le_of_eq hlength) hroom
  have hsize := (SimpleFifo.add_inBounds_iff haccepted).mp
    (hbounds ⟨14, by decide⟩ emptyFifo (zeroPacket 1976 hlt) next haccepted)
  rw [hlength] at hsize
  exact absurd hsize (by decide)

end Long

end Barley
