/-
A block of a session in host memory.  The parts of its cells lie apart from
each other, so the host finds every one of them, in whatever order the DMA
engine has written them.
-/
import Barley.SsnBlockLaw
import Barley.SsnPost
import Barley.SsnReader

namespace Barley

section Bytes

/-- `FRC_SSN_POSIVTE_FLOW` and `FRC_SSN_NEGATIVE_FLOW`. -/
def FlowDirection.onCard : FlowDirection → UInt16
  | .positive => 0
  | .negative => 1

/-- The record about a packet, cut to the widths of its members. -/
def FrcDmaPktInfo.onCard (info : FrcDmaPktInfo) : FrcDmaPktInfoT where
  sequence := .ofNat info.sequence
  ackSeq := .ofNat info.ackSeq
  dataOffset := .ofNat info.dataOffset
  payloadLen := .ofNat info.payloadLen
  direction := info.direction.onCard
  smac := .ofNat info.smac
  dmac := .ofNat info.dmac

/-- The assignments to a header on the stack; the other members keep what was
there. -/
def FrcDmaHdr.assign (hdr : FrcDmaHdr) (stack : FrcDmaHdrT) : FrcDmaHdrT :=
  { stack with
    sip := .ofNat hdr.sip
    dip := .ofNat hdr.dip
    sport := .ofNat hdr.sport
    dport := .ofNat hdr.dport
    protocol := .ofNat hdr.protocol
    stopSec := .ofNat hdr.stopSec
    hash := .ofNat hdr.hash
    totalPaylen := .ofNat hdr.totalPaylen
    pktNum := .ofNat hdr.pktNum }

def PayloadCell.bytes (cell : PayloadCell) : List UInt8 :=
  (List.range cell.payloadSize).map cell.payload

def PayloadCell.payloadWrite (cell : PayloadCell) : Scatter.Write UInt8 :=
  ⟨cell.blockAddr + cell.payloadOffset, cell.bytes⟩

def PayloadCell.infoWrite (cell : PayloadCell) : Scatter.Write UInt8 :=
  ⟨cell.blockAddr + cell.infoOffset, frcDmaPktInfoT.image cell.info.onCard⟩

/-- What is written to host memory for a cell. -/
def SsnFifoCell.writes (stack : FrcDmaHdrT) :
    SsnFifoCell → List (Scatter.Write UInt8)
  | .head hdr blockAddr =>
      [⟨blockAddr + frcDmaOffset, frcDmaHdrT.image (hdr.assign stack)⟩]
  | .payload cell => [cell.payloadWrite, cell.infoWrite]

/-- What the host dumps of a cell. -/
def PayloadCell.received (cell : PayloadCell) : PrSsnPkt where
  info := cell.info.onCard
  payload := cell.bytes

end Bytes

section Posting

variable (lim : DmaLimits) (fifo : SsnFifo) (stack : FrcDmaHdrT)

/-- What the DMA engine writes for a pointer of a descriptor. -/
def SsnFifo.write (pointer : SsnPointer) : Scatter.Write UInt8 where
  addr := pointer.remoteAddr
  items := match pointer.part with
    | .head => frcDmaHdrT.image ((fifo.cell lim pointer.cur).head.assign stack)
    | .payload => (fifo.cell lim pointer.cur).payload.take pointer.size
    | .info => frcDmaPktInfoT.image (fifo.cell lim pointer.cur).info.onCard

/-- The slot of the fifo holds the cell. -/
def FrcoreSsnFifoCell.Holds (slot : FrcoreSsnFifoCell) : SsnFifoCell → Prop
  | .head hdr blockAddr =>
      slot.type = .dmaHead ∧ slot.head = hdr ∧ slot.blockAddr = blockAddr
  | .payload cell =>
      slot.type = .dmaPayload ∧ slot.info = cell.info ∧
        slot.payload = cell.bytes ∧ slot.payloadSize = cell.payloadSize ∧
        slot.blockAddr = cell.blockAddr ∧
        slot.infoOffset = cell.infoOffset ∧
        slot.payloadOffset = cell.payloadOffset

/-- The pointers that post a slot write its cell, when the block lies below the
end of the address space. -/
theorem SsnFifo.write_pieces {cur : Nat} {cell : SsnFifoCell}
    (hholds : (fifo.cell lim cur).Holds cell)
    (haddr : cell.blockAddr + 2 ^ 16 ≤ 2 ^ 64)
    (hoffsets : ∀ payload, cell = .payload payload →
      payload.infoOffset < 2 ^ 16 ∧ payload.payloadOffset < 2 ^ 16) :
    (fifo.pieces lim cur).map (fifo.write lim stack) = cell.writes stack := by
  cases cell with
  | head hdr blockAddr =>
      obtain ⟨htype, hhead, hblock⟩ := hholds
      have hsum : add64 blockAddr frcDmaOffset = blockAddr + frcDmaOffset :=
        add64_eq (by simp only [SsnFifoCell.blockAddr] at haddr
                     simp only [frcDmaOffset]; omega)
      simp only [SsnFifo.pieces, htype, List.map_cons, List.map_nil,
        SsnFifo.write, SsnFifo.headPointer, hhead, hblock, hsum,
        SsnFifoCell.writes]
  | payload cell =>
      obtain ⟨htype, hinfo, hpayload, hsize, hblock, hinfoOffset,
        hpayloadOffset⟩ := hholds
      obtain ⟨hinfo16, hpayload16⟩ := hoffsets cell rfl
      simp only [SsnFifoCell.blockAddr] at haddr
      have hsum : add64 cell.blockAddr cell.payloadOffset =
          cell.blockAddr + cell.payloadOffset := add64_eq (by omega)
      have hsum' : add64 cell.blockAddr cell.infoOffset =
          cell.blockAddr + cell.infoOffset := add64_eq (by omega)
      have htake : cell.bytes.take cell.payloadSize = cell.bytes :=
        List.take_of_length_le (by simp [PayloadCell.bytes])
      simp only [SsnFifo.pieces, htype, List.map_cons, List.map_nil,
        SsnFifo.write, SsnFifo.payloadPointer, SsnFifo.infoPointer, hinfo,
        hpayload, hsize, hblock, hinfoOffset, hpayloadOffset, hsum, hsum',
        htake, SsnFifoCell.writes, PayloadCell.payloadWrite,
        PayloadCell.infoWrite]

end Posting

section Places

variable {addr : Nat} {payloads : List PayloadCell} (h : PayloadLaw addr payloads)

include h

theorem PayloadLaw.payloadWrite_addr {i : Nat} (hi : i < payloads.length) :
    payloads[i].payloadWrite.addr =
      addr + frcDmaOffset + (sizeofDmaHdr + totalSize (payloads.take i)) := by
  show payloads[i].blockAddr + payloads[i].payloadOffset = _
  rw [h.sameBlock _ (List.getElem_mem hi), (h.placed i hi).payloadOffset_eq]
  omega

theorem PayloadLaw.payloadWrite_stop {i : Nat} (hi : i < payloads.length) :
    payloads[i].payloadWrite.stop = addr + payloads[i].payloadStop := by
  have hblock := h.sameBlock _ (List.getElem_mem hi)
  have hsize := h.sizes _ (List.getElem_mem hi)
  simp only [Scatter.Write.stop, PayloadCell.payloadWrite, PayloadCell.bytes,
    List.length_map, List.length_range, PayloadCell.payloadStop, hblock, hsize]
  omega

theorem PayloadLaw.infoWrite_addr {i : Nat} (hi : i < payloads.length) :
    payloads[i].infoWrite.addr + sizeofPktInfo * (i + 1) =
      addr + frcDmaSsnBlockSize := by
  have hblock := h.sameBlock _ (List.getElem_mem hi)
  have hinfo := (h.placed i hi).infoOffset_eq
  rw [List.length_take, Nat.min_eq_left (Nat.le_of_lt hi)] at hinfo
  simp only [PayloadCell.infoWrite, hblock]
  omega

theorem PayloadLaw.infoWrite_stop {i : Nat} (hi : i < payloads.length) :
    payloads[i].infoWrite.stop = addr + payloads[i].infoStop := by
  have hblock := h.sameBlock _ (List.getElem_mem hi)
  simp only [Scatter.Write.stop, PayloadCell.infoWrite, length_infoImage,
    PayloadCell.infoStop, hblock]
  omega

theorem PayloadLaw.payload_payload {i j : Nat} (hi : i < payloads.length)
    (hj : j < payloads.length) :
    payloads[i].payloadWrite = payloads[j].payloadWrite ∨
      payloads[i].payloadWrite.Apart payloads[j].payloadWrite := by
  have horder := List.pairwise_iff_getElem.mp h.ordered_payloads
  have hfirst := h.payloadWrite_stop hi
  have hsecond := h.payloadWrite_stop hj
  have hblock := h.sameBlock _ (List.getElem_mem hi)
  have hblock' := h.sameBlock _ (List.getElem_mem hj)
  rcases Nat.lt_trichotomy i j with hlt | rfl | hlt
  · have hle := horder i j hi hj hlt
    refine .inr (.inl ?_)
    rw [hfirst, PayloadCell.payloadWrite, hblock']
    exact Nat.add_le_add_left hle addr
  · exact .inl rfl
  · have hle := horder j i hj hi hlt
    refine .inr (.inr ?_)
    rw [hsecond, PayloadCell.payloadWrite, hblock]
    exact Nat.add_le_add_left hle addr

theorem PayloadLaw.info_info {i j : Nat} (hi : i < payloads.length)
    (hj : j < payloads.length) :
    payloads[i].infoWrite = payloads[j].infoWrite ∨
      payloads[i].infoWrite.Apart payloads[j].infoWrite := by
  have hfirst := h.infoWrite_addr hi
  have hsecond := h.infoWrite_addr hj
  have hlen := length_infoImage payloads[i].info.onCard
  have hlen' := length_infoImage payloads[j].info.onCard
  rcases Nat.lt_trichotomy i j with hlt | rfl | hlt
  · refine .inr (.inr ?_)
    simp only [Scatter.Write.stop, PayloadCell.infoWrite, sizeofPktInfo] at *
    omega
  · exact .inl rfl
  · refine .inr (.inl ?_)
    simp only [Scatter.Write.stop, PayloadCell.infoWrite, sizeofPktInfo] at *
    omega

theorem PayloadLaw.payload_info {i j : Nat} (hi : i < payloads.length)
    (hj : j < payloads.length) :
    payloads[i].payloadWrite.Apart payloads[j].infoWrite := by
  refine .inl ?_
  rw [h.payloadWrite_stop hi, PayloadCell.infoWrite,
    h.sameBlock _ (List.getElem_mem hj)]
  exact Nat.add_le_add_left (h.infos_above hi hj) addr

/-- Every write lies in the block and behind the header. -/
theorem PayloadLaw.writes_bounds {i : Nat} (hi : i < payloads.length)
    {write : Scatter.Write UInt8}
    (hwrite : write = payloads[i].payloadWrite ∨
      write = payloads[i].infoWrite) :
    addr + frcDmaOffset + sizeofDmaHdr ≤ write.addr ∧
      write.stop ≤ addr + frcDmaSsnBlockSize := by
  have hbegin := h.payloadWrite_addr hi
  have hpayload := h.payloadWrite_stop hi
  have hinfo := h.infoWrite_stop hi
  have habove := h.infos_above hi hi
  have hend := h.infoStop_eq hi
  have hblock := h.sameBlock _ (List.getElem_mem hi)
  have hoffset := (h.placed i hi).payloadOffset_eq
  simp only [PayloadCell.payloadStop, PayloadCell.infoStop] at *
  rcases hwrite with rfl | rfl
  · omega
  · refine ⟨?_, by omega⟩
    simp only [PayloadCell.infoWrite, hblock]
    omega

end Places

section Memory

/-- Every cell of the block has been written, and nothing else into it. -/
structure SsnBlock.Written (block : SsnBlock) (stack : FrcDmaHdrT)
    (writes : List (Scatter.Write UInt8)) : Prop where
  all : ∀ cell ∈ block.cells, ∀ write ∈ cell.writes stack, write ∈ writes
  only : ∀ write ∈ writes,
    (∃ cell ∈ block.cells, write ∈ cell.writes stack) ∨
      write.stop ≤ block.addr ∨
      block.addr + frcDmaSsnBlockSize ≤ write.addr

/-- The memory holds the block, after writes in some order and between writes
to other places. -/
def SsnBlock.InMemory (block : SsnBlock) (mem : Nat → UInt8) : Prop :=
  ∃ before stack writes, block.Written stack writes ∧
    mem = Scatter.run before writes

/-- A block with its header. -/
structure SsnBlock.Complete (block : SsnBlock) (payloads : List PayloadCell)
    (hdr : FrcDmaHdr) : Prop where
  law : PayloadLaw block.addr payloads
  cells_eq : block.cells = payloads.map .payload ++ [.head hdr block.addr]
  pktNum_eq : hdr.pktNum = payloads.length
  totalPaylen_eq : hdr.totalPaylen = totalSize payloads

variable {block : SsnBlock} {payloads : List PayloadCell} {hdr : FrcDmaHdr}
  {stack : FrcDmaHdrT} {writes : List (Scatter.Write UInt8)}

/-- The writes into a complete block. -/
theorem SsnBlock.Complete.mem_writes (h : block.Complete payloads hdr)
    {write : Scatter.Write UInt8} :
    (∃ cell ∈ block.cells, write ∈ cell.writes stack) ↔
      (∃ i, ∃ hi : i < payloads.length, write = payloads[i].payloadWrite ∨
        write = payloads[i].infoWrite) ∨
      write = ⟨block.addr + frcDmaOffset,
        frcDmaHdrT.image (hdr.assign stack)⟩ := by
  rw [h.cells_eq]
  constructor
  · rintro ⟨cell, hcell, hwrite⟩
    rcases List.mem_append.mp hcell with hpayload | hhead
    · obtain ⟨payload, hmem, rfl⟩ := List.mem_map.mp hpayload
      obtain ⟨i, hi, rfl⟩ := List.getElem_of_mem hmem
      refine .inl ⟨i, hi, ?_⟩
      simpa [SsnFifoCell.writes] using hwrite
    · rw [List.mem_singleton.mp hhead] at hwrite
      exact .inr (List.mem_singleton.mp hwrite)
  · rintro (⟨i, hi, hwrite⟩ | rfl)
    · refine ⟨.payload payloads[i], List.mem_append_left _
        (List.mem_map_of_mem (List.getElem_mem hi)), ?_⟩
      simpa [SsnFifoCell.writes] using hwrite
    · exact ⟨.head hdr block.addr,
        List.mem_append_right _ (List.mem_singleton_self _),
        List.mem_singleton_self _⟩

/-- A write into the block is apart from all other writes. -/
theorem SsnBlock.Complete.apart (h : block.Complete payloads hdr)
    (hwritten : block.Written stack writes) {write : Scatter.Write UInt8}
    (hwrite : ∃ cell ∈ block.cells, write ∈ cell.writes stack) :
    ∀ other ∈ writes, other = write ∨ other.Apart write := by
  have hhead : (⟨block.addr + frcDmaOffset,
      frcDmaHdrT.image (hdr.assign stack)⟩ : Scatter.Write UInt8).stop =
        block.addr + frcDmaOffset + sizeofDmaHdr := by
    rw [Scatter.Write.stop, length_hdrImage]
  have hbounds : block.addr ≤ write.addr ∧
      write.stop ≤ block.addr + frcDmaSsnBlockSize := by
    rcases h.mem_writes.mp hwrite with ⟨i, hi, hpiece⟩ | rfl
    · obtain ⟨hle, hstop⟩ := h.law.writes_bounds hi hpiece
      exact ⟨by omega, hstop⟩
    · rw [hhead]
      simp only [frcDmaOffset, sizeofDmaHdr, frcDmaSsnBlockSize]
      omega
  intro other hother
  rcases hwritten.only other hother with hcell | hbelow | habove
  · rcases h.mem_writes.mp hwrite with ⟨i, hi, hpiece⟩ | rfl
    · rcases h.mem_writes.mp hcell with ⟨j, hj, hpiece'⟩ | rfl
      · -- two parts of payload cells
        rcases hpiece with rfl | rfl
        · rcases hpiece' with rfl | rfl
          · exact h.law.payload_payload hj hi
          · exact .inr (h.law.payload_info hi hj).symm
        · rcases hpiece' with rfl | rfl
          · exact .inr (h.law.payload_info hj hi)
          · exact h.law.info_info hj hi
      · obtain ⟨hle, -⟩ := h.law.writes_bounds hi hpiece
        exact .inr (.inl (hhead ▸ hle))
    · rcases h.mem_writes.mp hcell with ⟨j, hj, hpiece'⟩ | rfl
      · obtain ⟨hle, -⟩ := h.law.writes_bounds hj hpiece'
        exact .inr (.inr (hhead ▸ hle))
      · exact .inl rfl
  · exact .inr (.inl (Nat.le_trans hbelow hbounds.1))
  · exact .inr (.inr (Nat.le_trans hbounds.2 habove))

/-- A part of a cell is read as it was written. -/
theorem SsnBlock.Complete.read (h : block.Complete payloads hdr)
    (hwritten : block.Written stack writes) (before : Nat → UInt8)
    {write : Scatter.Write UInt8}
    (hwrite : ∃ cell ∈ block.cells, write ∈ cell.writes stack) :
    Ring.read (Scatter.run before writes) write.addr write.items.length =
      write.items := by
  obtain ⟨cell, hcell, hmem⟩ := hwrite
  exact Scatter.read_run before (hwritten.all cell hcell write hmem)
    (h.apart hwritten ⟨cell, hcell, hmem⟩)

variable (h : block.Complete payloads hdr)
  (hwritten : block.Written stack writes) (before : Nat → UInt8)

include h hwritten

/-- The host gets the header with the members that were assigned. -/
theorem SsnBlock.Complete.head_get :
    prSsnDmaHeadGet (Scatter.run before writes) block.addr =
      hdr.assign stack := by
  have hread := h.read hwritten before (h.mem_writes.mpr (.inr rfl))
  rw [length_hdrImage] at hread
  rw [prSsnDmaHeadGet, frcSsnBlockData, Nat.add_zero, hread]
  exact (hdr.assign stack).lawful.get_image

theorem SsnBlock.Complete.payload_read {i : Nat} (hi : i < payloads.length) :
    frcSsnBlockData (Scatter.run before writes) block.addr
      (sizeofDmaHdr + totalSize (payloads.take i)) payloads[i].payloadSize =
      payloads[i].bytes := by
  have hread := h.read hwritten before
    (h.mem_writes.mpr (.inl ⟨i, hi, .inl rfl⟩))
  have hlen : payloads[i].payloadWrite.items.length =
      payloads[i].payloadSize := by
    simp [PayloadCell.payloadWrite, PayloadCell.bytes]
  rw [hlen, h.law.payloadWrite_addr hi] at hread
  exact hread

theorem SsnBlock.Complete.info_get {i : Nat} (hi : i < payloads.length)
    {offset : Nat}
    (hoffset : offset + sizeofPktInfo * (i + 1) = frcDmaSsnDataSize) :
    frcDmaPktInfoT.get (frcSsnBlockData (Scatter.run before writes) block.addr
      offset sizeofPktInfo) = payloads[i].info.onCard := by
  have hread := h.read hwritten before
    (h.mem_writes.mpr (.inl ⟨i, hi, .inr rfl⟩))
  have haddr := h.law.infoWrite_addr hi
  have hplace : payloads[i].infoWrite.addr =
      block.addr + frcDmaOffset + offset := by
    simp only [frcDmaSsnDataSize, frcDmaOffset, frcDmaSsnBlockSize] at *
    omega
  have hlen : payloads[i].infoWrite.items.length = sizeofPktInfo :=
    length_infoImage _
  rw [hlen, hplace] at hread
  rw [frcSsnBlockData, hread]
  exact payloads[i].info.onCard.lawful.get_image

end Memory

end Barley
