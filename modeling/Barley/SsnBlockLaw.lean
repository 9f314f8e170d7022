/-
What the cells of a block look like.  Submission is cut into single steps, and
each step keeps the shape of the block that is being filled; so the cells of
every block that a session has filled lie apart.
-/
import Barley.SsnBlocks

namespace Barley

/-- The sizes that are submitted. -/
def SubmitSize (dataLen : Nat) : Prop := 1 ≤ dataLen ∧ dataLen ≤ 1600

/-- A block as the fifo sees it: where it lies and the cells for it. -/
structure SsnBlock where
  addr : Nat
  cells : List SsnFifoCell

/-- Cells belong to the block that has been taken last. -/
def addEvent (blocks : List SsnBlock) : FlowEvent → List SsnBlock
  | .block addr => blocks ++ [⟨addr, []⟩]
  | .cell cell => blocks.dropLast ++
      blocks.getLast?.toList.map fun block =>
        { block with cells := block.cells ++ [cell] }
  | .workFree _ | .qentTake _ | .qentFree _ => blocks

/-- The blocks of a session, in the order in which they were taken. -/
def blocksOf (log : List FlowEvent) : List SsnBlock :=
  log.foldl addEvent []

/-- The cells that have entered the fifo. -/
def cellsOf (log : List FlowEvent) : List SsnFifoCell :=
  log.filterMap fun
    | .cell cell => some cell
    | _ => none

def totalSize (payloads : List PayloadCell) : Nat :=
  (payloads.map PayloadCell.payloadSize).sum

/-- The place of a payload and of the record about it, when the payloads in
`front` are in the block already. -/
structure PayloadCell.PlacedAfter (cell : PayloadCell)
    (front : List PayloadCell) : Prop where
  payloadOffset_eq : cell.payloadOffset =
    frcDmaOffset + sizeofDmaHdr + totalSize front
  dataOffset_eq : cell.info.dataOffset = totalSize front
  infoOffset_eq : cell.infoOffset + sizeofPktInfo * (front.length + 1) =
    frcDmaSsnBlockSize

/-- Payloads without gaps from the header up, records from the end down, and
room between them. -/
structure PayloadLaw (addr : Nat) (payloads : List PayloadCell) : Prop where
  sameBlock : ∀ cell ∈ payloads, cell.blockAddr = addr
  sizes : ∀ cell ∈ payloads, cell.info.payloadLen = cell.payloadSize
  placed : ∀ i (h : i < payloads.length),
    payloads[i].PlacedAfter (payloads.take i)
  room : frcDmaOffset + sizeofDmaHdr + totalSize payloads +
    sizeofPktInfo * payloads.length ≤ frcDmaSsnBlockSize

/-- The shape of a block: its payloads and then at most one header, which
counts them. -/
def SsnBlock.Shaped (block : SsnBlock) : Prop :=
  ∃ payloads, PayloadLaw block.addr payloads ∧
    (block.cells = payloads.map .payload ∨
      ∃ hdr, block.cells = payloads.map .payload ++ [.head hdr block.addr] ∧
        hdr.pktNum = payloads.length ∧
        hdr.totalPaylen = totalSize payloads)

/-- How far a session has filled its block. -/
structure Filling (ssnAddr : FrcSsnSubmitAddr) (payloads : List PayloadCell) :
    Prop where
  law : PayloadLaw ssnAddr.blockAddr payloads
  payloadLen_eq : ssnAddr.payloadLen = totalSize payloads
  pktNum_eq : ssnAddr.pktNum = payloads.length
  payloadOffset_eq : ssnAddr.payloadOffset =
    frcDmaOffset + sizeofDmaHdr + totalSize payloads
  infoOffset_eq : ssnAddr.infoOffset +
    sizeofPktInfo * (payloads.length + 1) = frcDmaSsnBlockSize

/-- Every block has its shape, the last one is what the session fills, and the
blocks hold all cells. -/
structure SubmitInv (ssn : SubmitSsn) (log : List FlowEvent) : Prop where
  shaped : ∀ block ∈ blocksOf log, block.Shaped
  filling : ssn.ssnAddr.addrFlag ≠ 0 → ∃ closed payloads,
    blocksOf log =
        closed ++ [⟨ssn.ssnAddr.blockAddr, payloads.map .payload⟩] ∧
      Filling ssn.ssnAddr payloads
  entered : (blocksOf log).flatMap SsnBlock.cells = cellsOf log

section Law

variable {addr : Nat} {payloads : List PayloadCell}

theorem totalSize_append (front back : List PayloadCell) :
    totalSize (front ++ back) = totalSize front + totalSize back := by
  rw [totalSize, List.map_append, List.sum_append]
  rfl

theorem PayloadLaw.nil (addr : Nat) : PayloadLaw addr [] where
  sameBlock := by simp
  sizes := by simp
  placed := by simp
  room := by decide

/-- One more payload, at the end of the others. -/
theorem PayloadLaw.append (h : PayloadLaw addr payloads) {cell : PayloadCell}
    (hblock : cell.blockAddr = addr)
    (hsize : cell.info.payloadLen = cell.payloadSize)
    (hplaced : cell.PlacedAfter payloads)
    (hfits : cell.payloadOffset + cell.payloadSize ≤ cell.infoOffset) :
    PayloadLaw addr (payloads ++ [cell]) := by
  refine ⟨?_, ?_, ?_, ?_⟩
  · intro other hother
    rcases List.mem_append.mp hother with hold | hnew
    · exact h.sameBlock other hold
    · rw [List.mem_singleton.mp hnew, hblock]
  · intro other hother
    rcases List.mem_append.mp hother with hold | hnew
    · exact h.sizes other hold
    · rw [List.mem_singleton.mp hnew, hsize]
  · intro i hi
    rw [List.length_append, List.length_singleton] at hi
    by_cases hold : i < payloads.length
    · rw [List.getElem_append_left hold,
        List.take_append_of_le_length (Nat.le_of_lt hold)]
      exact h.placed i hold
    · obtain rfl : i = payloads.length := by omega
      rw [List.getElem_concat_length rfl, List.take_left]
      exact hplaced
  · have hone : totalSize [cell] = cell.payloadSize := by simp [totalSize]
    have hpayload := hplaced.payloadOffset_eq
    have hinfo := hplaced.infoOffset_eq
    rw [totalSize_append, List.length_append, List.length_singleton, hone]
    omega

end Law

/-- What one call after the other can do, one event at a time. -/
inductive SubmitSteps : SubmitSsn → List FlowEvent → SubmitSsn → Prop where
  | done (ssn : SubmitSsn) : SubmitSteps ssn [] ssn
  | block {ssn ssn' : SubmitSsn} {events : List FlowEvent} (addr : Nat)
      (hflag : ssn.ssnAddr.addrFlag = 0)
      (rest : SubmitSteps { ssn with ssnAddr := .fresh addr } events ssn') :
      SubmitSteps ssn (.block addr :: events) ssn'
  | head {ssn ssn' : SubmitSsn} {events : List FlowEvent}
      (hflag : ssn.ssnAddr.addrFlag ≠ 0)
      (rest : SubmitSteps ssn.close events ssn') :
      SubmitSteps ssn (ssn.headCell :: events) ssn'
  | payload {ssn ssn' : SubmitSsn} {events : List FlowEvent}
      (current : TsegQent) (hflag : ssn.ssnAddr.addrFlag ≠ 0)
      (hsize : SubmitSize current.dataLen) (hfits : ¬ ssn.full current.dataLen)
      (rest : SubmitSteps (ssn.advance current.dataLen) events ssn') :
      SubmitSteps ssn (.cell (.payload (ssn.payloadCell current)) :: events)
        ssn'
  | workFree {ssn ssn' : SubmitSsn} {events : List FlowEvent} (work : Nat)
      (rest : SubmitSteps ssn events ssn') :
      SubmitSteps ssn (.workFree work :: events) ssn'

section Steps

variable {ssn ssn' ssn'' : SubmitSsn} {events more : List FlowEvent}

theorem SubmitSteps.append (h : SubmitSteps ssn events ssn')
    (h' : SubmitSteps ssn' more ssn'') :
    SubmitSteps ssn (events ++ more) ssn'' := by
  induction h with
  | done ssn => exact h'
  | block addr hflag rest ih => exact .block addr hflag (ih h')
  | head hflag rest ih => exact .head hflag (ih h')
  | payload current hflag hsize hfits rest ih =>
      exact .payload current hflag hsize hfits (ih h')
  | workFree work rest ih => exact .workFree work (ih h')

theorem submitPayload_steps {current : TsegQent} {work : Nat} {rv : Fre}
    (hflag : ssn.ssnAddr.addrFlag ≠ 0) (hsize : SubmitSize current.dataLen)
    (hfits : ¬ ssn.full current.dataLen) :
    SubmitSteps ssn (submitPayload ssn current work rv).2.2
      (submitPayload ssn current work rv).2.1 := by
  rw [submitPayload]
  split
  · exact .workFree work (.done ssn)
  · exact .workFree work (.payload current hflag hsize hfits (.done _))

/-- A new block has room for any payload. -/
theorem not_full_fresh (addr : Nat) {dataLen : Nat}
    (hsize : SubmitSize dataLen) :
    ¬ ({ ssn with ssnAddr := .fresh addr } : SubmitSsn).full dataLen := by
  obtain ⟨-, hle⟩ := hsize
  simp only [SubmitSsn.full, FrcSsnSubmitAddr.fresh, frcDmaOffset, sizeofDmaHdr,
    frcDmaSsnBlockSize, sizeofPktInfo, add64]
  omega

section CheckSsnAddr

variable {ssnAddr : FrcSsnSubmitAddr}

theorem checkSsnAddr_of_flag (hflag : ssnAddr.addrFlag ≠ 0)
    (block : Option Nat) :
    checkSsnAddr ssnAddr block = (.success, ssnAddr, []) :=
  if_neg hflag

theorem checkSsnAddr_none (hflag : ssnAddr.addrFlag = 0) :
    checkSsnAddr ssnAddr none = (.nospace, ssnAddr, []) :=
  if_pos hflag

theorem checkSsnAddr_some (hflag : ssnAddr.addrFlag = 0) (addr : Nat) :
    checkSsnAddr ssnAddr (some addr) =
      (.success, .fresh addr, [.block addr]) :=
  if_pos hflag

end CheckSsnAddr

theorem submitToBlock_steps {current : TsegQent} {work : Nat}
    {env : SubmitEnv} (hflag : ssn.ssnAddr.addrFlag ≠ 0)
    (hsize : SubmitSize current.dataLen) :
    SubmitSteps ssn (submitToBlock ssn current work env).2.2
      (submitToBlock ssn current work env).2.1 := by
  have hclosed : ssn.close.ssnAddr.addrFlag = 0 := rfl
  rw [submitToBlock]
  split
  · split
    · exact .workFree work (.done ssn)
    · -- the header goes out, and the next block is taken or not
      cases env.nextBlock with
      | none =>
          rw [checkSsnAddr_none hclosed]
          exact .head hflag (.workFree work (.done _))
      | some addr =>
          rw [checkSsnAddr_some hclosed]
          refine .head hflag (.block addr hclosed ?_)
          exact submitPayload_steps Nat.one_ne_zero hsize
            (not_full_fresh addr hsize)
  · rename_i hfits
    exact submitPayload_steps hflag hsize hfits

theorem sbumitDataToFifo_steps {current : TsegQent} (work : Nat)
    (env : SubmitEnv) (hsize : SubmitSize current.dataLen) :
    SubmitSteps ssn (sbumitDataToFifo ssn current work env).2.2
      (sbumitDataToFifo ssn current work env).2.1 := by
  rw [sbumitDataToFifo]
  by_cases hflag : ssn.ssnAddr.addrFlag = 0
  · cases env.firstBlock with
    | none =>
        rw [checkSsnAddr_none hflag]
        exact .workFree work (.done ssn)
    | some addr =>
        rw [checkSsnAddr_some hflag]
        exact .block addr hflag
          (submitToBlock_steps Nat.one_ne_zero hsize)
  · rw [checkSsnAddr_of_flag hflag]
    exact submitToBlock_steps hflag hsize

theorem sbumitDmaHeaderToFifo_steps (rv : Fre) :
    SubmitSteps ssn (sbumitDmaHeaderToFifo ssn rv).2.2
      (sbumitDmaHeaderToFifo ssn rv).2.1 := by
  rw [sbumitDmaHeaderToFifo]
  split
  · rename_i hflag
    split
    · exact .done ssn
    · exact .head hflag (.done _)
  · exact .done ssn

end Steps

section Invariant

variable {ssn ssn' : SubmitSsn} {log events : List FlowEvent}

theorem blocksOf_append (log : List FlowEvent) (event : FlowEvent) :
    blocksOf (log ++ [event]) = addEvent (blocksOf log) event := by
  rw [blocksOf, List.foldl_append]
  rfl

theorem addEvent_cell (closed : List SsnBlock) (block : SsnBlock)
    (cell : SsnFifoCell) :
    addEvent (closed ++ [block]) (.cell cell) =
      closed ++ [{ block with cells := block.cells ++ [cell] }] := by
  rw [addEvent, List.dropLast_concat, List.getLast?_concat]
  rfl

theorem cellsOf_cell (log : List FlowEvent) (cell : SsnFifoCell) :
    cellsOf (log ++ [.cell cell]) = cellsOf log ++ [cell] := by
  rw [cellsOf, List.filterMap_append]
  rfl

theorem SubmitInv.block (h : SubmitInv ssn log) (addr : Nat) :
    SubmitInv { ssn with ssnAddr := .fresh addr } (log ++ [.block addr]) := by
  have hblocks : blocksOf (log ++ [.block addr]) =
      blocksOf log ++ [⟨addr, []⟩] := blocksOf_append log _
  refine ⟨?_, ?_, ?_⟩
  · intro block hblock
    rw [hblocks] at hblock
    rcases List.mem_append.mp hblock with hold | hnew
    · exact h.shaped block hold
    · rw [List.mem_singleton.mp hnew]
      exact ⟨[], .nil addr, .inl rfl⟩
  · intro _
    exact ⟨blocksOf log, [], hblocks, .nil addr, rfl, rfl, rfl, rfl⟩
  · rw [hblocks, List.flatMap_append, h.entered, cellsOf, cellsOf,
      List.filterMap_append]
    rfl

theorem SubmitInv.workFree (h : SubmitInv ssn log) (work : Nat) :
    SubmitInv ssn (log ++ [.workFree work]) := by
  have hblocks : blocksOf (log ++ [.workFree work]) = blocksOf log :=
    blocksOf_append log _
  refine ⟨?_, ?_, ?_⟩
  · rw [hblocks]
    exact h.shaped
  · rw [hblocks]
    exact h.filling
  · rw [hblocks, h.entered, cellsOf, cellsOf, List.filterMap_append]
    exact (List.append_nil _).symm

/-- A cell for the block that is being filled. -/
theorem SubmitInv.addCell (h : SubmitInv ssn log) {closed : List SsnBlock}
    {block : SsnBlock} {cell : SsnFifoCell}
    (hblocks : blocksOf log = closed ++ [block])
    (hshaped : SsnBlock.Shaped { block with cells := block.cells ++ [cell] })
    (hfilling : ssn'.ssnAddr.addrFlag ≠ 0 → ∃ payloads,
      block.cells ++ [cell] = payloads.map .payload ∧
        block.addr = ssn'.ssnAddr.blockAddr ∧ Filling ssn'.ssnAddr payloads) :
    SubmitInv ssn' (log ++ [.cell cell]) := by
  have hadd : blocksOf (log ++ [.cell cell]) =
      closed ++ [{ block with cells := block.cells ++ [cell] }] := by
    rw [blocksOf_append, hblocks, addEvent_cell]
  refine ⟨?_, ?_, ?_⟩
  · intro other hother
    rw [hadd] at hother
    rcases List.mem_append.mp hother with hold | hnew
    · refine h.shaped other ?_
      rw [hblocks]
      exact List.mem_append_left _ hold
    · rw [List.mem_singleton.mp hnew]
      exact hshaped
  · intro hflag
    obtain ⟨payloads, hcells, haddr, hfill⟩ := hfilling hflag
    refine ⟨closed, payloads, ?_, hfill⟩
    rw [hadd, hcells, haddr]
  · have hentered := h.entered
    rw [hblocks, List.flatMap_append, List.flatMap_singleton] at hentered
    rw [hadd, List.flatMap_append, List.flatMap_singleton, cellsOf_cell,
      ← hentered, List.append_assoc]

theorem PayloadLaw.bounds {addr : Nat} {payloads : List PayloadCell}
    (h : PayloadLaw addr payloads) :
    totalSize payloads < 2 ^ 16 ∧ payloads.length < 2 ^ 16 := by
  have hroom := h.room
  simp only [frcDmaOffset, sizeofDmaHdr, sizeofPktInfo,
    frcDmaSsnBlockSize] at hroom
  constructor <;> omega

theorem SubmitInv.head (h : SubmitInv ssn log)
    (hflag : ssn.ssnAddr.addrFlag ≠ 0) :
    SubmitInv ssn.close (log ++ [ssn.headCell]) := by
  obtain ⟨closed, payloads, hblocks, hfill⟩ := h.filling hflag
  obtain ⟨htotal, hcount⟩ := hfill.law.bounds
  refine h.addCell hblocks ⟨payloads, hfill.law, .inr ⟨_, rfl, ?_, ?_⟩⟩
    fun hopen => absurd rfl hopen
  · rw [SubmitSsn.dmaHdr, hfill.pktNum_eq]
    exact Nat.mod_eq_of_lt hcount
  · rw [SubmitSsn.dmaHdr, hfill.payloadLen_eq]
    exact Nat.mod_eq_of_lt htotal

theorem SubmitSsn.advance_blockAddr (ssn : SubmitSsn) (dataLen : Nat) :
    (ssn.advance dataLen).ssnAddr.blockAddr = ssn.ssnAddr.blockAddr := by
  obtain ⟨sip, dip, sp, dp, proto, ssnIndex, word1, word2, ssnAddr⟩ := ssn
  obtain ⟨blockAddr, headOffset, infoOffset, payloadOffset, flag, len, num⟩ :=
    ssnAddr
  -- with `rfl` the kernel would compare the offsets first
  exact Eq.refl blockAddr

section Payload

variable {payloads : List PayloadCell} {current : TsegQent}
  (hfill : Filling ssn.ssnAddr payloads) (hsize : SubmitSize current.dataLen)
  (hfits : ¬ ssn.full current.dataLen)

include hfill hsize hfits

theorem Filling.fits :
    ssn.ssnAddr.payloadOffset + current.dataLen ≤ ssn.ssnAddr.infoOffset := by
  have hoffset := hfill.payloadOffset_eq
  obtain ⟨htotal, -⟩ := hfill.law.bounds
  obtain ⟨-, hle⟩ := hsize
  simp only [frcDmaOffset, sizeofDmaHdr] at hoffset
  rw [SubmitSsn.full, add64_eq (by omega)] at hfits
  omega

theorem Filling.append_law :
    PayloadLaw ssn.ssnAddr.blockAddr
      (payloads ++ [ssn.payloadCell current]) := by
  have hroom := hfill.fits hsize hfits
  obtain ⟨htotal, -⟩ := hfill.law.bounds
  obtain ⟨-, hle⟩ := hsize
  have hlen : current.dataLen % 2 ^ 16 = current.dataLen :=
    Nat.mod_eq_of_lt (by omega)
  refine hfill.law.append rfl rfl ⟨hfill.payloadOffset_eq, ?_,
    hfill.infoOffset_eq⟩ ?_
  · show ssn.ssnAddr.payloadLen % 2 ^ 32 = totalSize payloads
    rw [hfill.payloadLen_eq]
    exact Nat.mod_eq_of_lt (by omega)
  · show ssn.ssnAddr.payloadOffset + current.dataLen % 2 ^ 16 ≤
      ssn.ssnAddr.infoOffset
    rw [hlen]
    exact hroom

theorem Filling.advance :
    Filling (ssn.advance current.dataLen).ssnAddr
      (payloads ++ [ssn.payloadCell current]) := by
  have hlaw := hfill.append_law hsize hfits
  have hroom := hfill.fits hsize hfits
  obtain ⟨htotal, hcount⟩ := hfill.law.bounds
  obtain ⟨-, hle⟩ := hsize
  have hpayload := hfill.payloadOffset_eq
  have hinfo := hfill.infoOffset_eq
  have hlen : totalSize (payloads ++ [ssn.payloadCell current]) =
      totalSize payloads + current.dataLen := by
    rw [totalSize_append]
    show totalSize payloads + (current.dataLen % 2 ^ 16 + 0) = _
    rw [Nat.add_zero, Nat.mod_eq_of_lt (by omega)]
  simp only [frcDmaOffset, sizeofDmaHdr] at hpayload
  simp only [sizeofPktInfo, frcDmaSsnBlockSize] at hinfo
  rw [← ssn.advance_blockAddr current.dataLen] at hlaw
  refine ⟨hlaw, ?_, ?_, ?_, ?_⟩
  · show add64 ssn.ssnAddr.payloadLen current.dataLen = _
    rw [hlen, hfill.payloadLen_eq, add64_eq (by omega)]
  · show add64 ssn.ssnAddr.pktNum 1 = _
    rw [hfill.pktNum_eq, add64_eq (by omega), List.length_append]
    rfl
  · show (ssn.ssnAddr.payloadOffset + current.dataLen) % 2 ^ 16 = _
    rw [hlen, Nat.mod_eq_of_lt (by omega), hpayload, frcDmaOffset, sizeofDmaHdr]
    omega
  · show (ssn.ssnAddr.infoOffset + (2 ^ 16 - sizeofPktInfo)) % 2 ^ 16 + _ = _
    rw [List.length_append, List.length_singleton]
    simp only [sizeofPktInfo, frcDmaSsnBlockSize]
    omega

end Payload

theorem SubmitInv.payload (h : SubmitInv ssn log) {current : TsegQent}
    (hflag : ssn.ssnAddr.addrFlag ≠ 0) (hsize : SubmitSize current.dataLen)
    (hfits : ¬ ssn.full current.dataLen) :
    SubmitInv (ssn.advance current.dataLen)
      (log ++ [.cell (.payload (ssn.payloadCell current))]) := by
  obtain ⟨closed, payloads, hblocks, hfill⟩ := h.filling hflag
  have hcells : payloads.map SsnFifoCell.payload ++
      [.payload (ssn.payloadCell current)] =
        (payloads ++ [ssn.payloadCell current]).map .payload := by
    rw [List.map_append]
    rfl
  exact h.addCell hblocks
    ⟨_, hfill.append_law hsize hfits, .inl hcells⟩
    fun _ => ⟨_, hcells, rfl, hfill.advance hsize hfits⟩

/-- A run of single steps keeps the shape of all blocks. -/
theorem SubmitSteps.inv (hsteps : SubmitSteps ssn events ssn')
    (h : SubmitInv ssn log) : SubmitInv ssn' (log ++ events) := by
  induction hsteps generalizing log with
  | done ssn =>
      rw [List.append_nil]
      exact h
  | block addr hflag rest ih =>
      rw [List.append_cons]
      exact ih (h.block addr)
  | head hflag rest ih =>
      rw [List.append_cons]
      exact ih (h.head hflag)
  | payload current hflag hsize hfits rest ih =>
      rw [List.append_cons]
      exact ih (h.payload hflag hsize hfits)
  | workFree work rest ih =>
      rw [List.append_cons]
      exact ih (h.workFree work)

end Invariant

section Blocks

def SsnFifoCell.blockAddr : SsnFifoCell → Nat
  | .head _ blockAddr => blockAddr
  | .payload cell => cell.blockAddr

/-- The payload cells of a block. -/
def SsnBlock.payloads (block : SsnBlock) : List PayloadCell :=
  block.cells.filterMap fun
    | .payload cell => some cell
    | .head _ _ => none

def PayloadCell.payloadStop (cell : PayloadCell) : Nat :=
  cell.payloadOffset + cell.info.payloadLen

def PayloadCell.infoStop (cell : PayloadCell) : Nat :=
  cell.infoOffset + sizeofPktInfo

/-- The layout of a block.  Payloads follow each other from the header on,
records follow each other from the end down, nothing overlaps, and a header
comes once, behind all payloads, with their number and total length. -/
structure SsnBlock.Law (block : SsnBlock) : Prop where
  sameBlock : ∀ cell ∈ block.cells, cell.blockAddr = block.addr
  contiguous : ∀ i (h : i < block.payloads.length),
    block.payloads[i].payloadOffset = frcDmaOffset + sizeofDmaHdr +
      ((block.payloads.take i).map fun cell => cell.info.payloadLen).sum
  dataOffset : ∀ i (h : i < block.payloads.length),
    block.payloads[i].info.dataOffset =
      ((block.payloads.take i).map fun cell => cell.info.payloadLen).sum
  payloadsApart : Segments.Ordered PayloadCell.payloadOffset
    PayloadCell.payloadStop block.payloads
  infosFromEnd : ∀ i (h : i < block.payloads.length),
    block.payloads[i].infoStop + sizeofPktInfo * i = frcDmaSsnBlockSize
  infosApart : Segments.Ordered PayloadCell.infoOffset PayloadCell.infoStop
    block.payloads.reverse
  infosAbovePayloads : ∀ cell ∈ block.payloads, ∀ other ∈ block.payloads,
    cell.payloadStop ≤ other.infoOffset
  aboveHeader : ∀ cell ∈ block.payloads,
    frcDmaOffset + sizeofDmaHdr ≤ cell.payloadOffset ∧
      frcDmaOffset + sizeofDmaHdr ≤ cell.infoOffset
  headerLast : block.cells = block.payloads.map .payload ∨
    ∃ hdr, block.cells =
        block.payloads.map .payload ++ [.head hdr block.addr] ∧
      hdr.pktNum = block.payloads.length ∧
      hdr.totalPaylen =
        (block.payloads.map fun cell => cell.info.payloadLen).sum

variable {addr : Nat} {payloads : List PayloadCell}

theorem PayloadLaw.sum_payloadLen (h : PayloadLaw addr payloads) {n : Nat} :
    ((payloads.take n).map fun cell => cell.info.payloadLen).sum =
      totalSize (payloads.take n) := by
  rw [totalSize]
  congr 1
  exact List.map_congr_left fun cell hcell =>
    h.sizes cell (List.mem_of_mem_take hcell)

theorem totalSize_take_le (payloads : List PayloadCell) (i : Nat) :
    totalSize (payloads.take i) ≤ totalSize payloads := by
  have hsplit := totalSize_append (payloads.take i) (payloads.drop i)
  rw [List.take_append_drop] at hsplit
  omega

theorem totalSize_take_succ {i : Nat} (h : i < payloads.length) :
    totalSize (payloads.take (i + 1)) =
      totalSize (payloads.take i) + payloads[i].payloadSize := by
  rw [List.take_add_one, List.getElem?_eq_getElem h, totalSize_append]
  simp [totalSize]

/-- Where the payload at `i` ends. -/
theorem PayloadLaw.payloadStop_eq (h : PayloadLaw addr payloads) {i : Nat}
    (hi : i < payloads.length) :
    payloads[i].payloadStop =
      frcDmaOffset + sizeofDmaHdr + totalSize (payloads.take (i + 1)) := by
  rw [PayloadCell.payloadStop, (h.placed i hi).payloadOffset_eq,
    h.sizes _ (List.getElem_mem hi), totalSize_take_succ hi, Nat.add_assoc]

theorem PayloadLaw.ordered_payloads (h : PayloadLaw addr payloads) :
    Segments.Ordered PayloadCell.payloadOffset PayloadCell.payloadStop
      payloads := by
  refine List.pairwise_iff_getElem.mpr fun i j hi hj hlt => ?_
  have hle := totalSize_take_le (payloads.take j) (i + 1)
  rw [List.take_take, Nat.min_eq_left (show i + 1 ≤ j from hlt)] at hle
  rw [h.payloadStop_eq hi, (h.placed j hj).payloadOffset_eq]
  omega

theorem PayloadLaw.infoStop_eq (h : PayloadLaw addr payloads) {i : Nat}
    (hi : i < payloads.length) :
    payloads[i].infoStop + sizeofPktInfo * i = frcDmaSsnBlockSize := by
  have hinfo := (h.placed i hi).infoOffset_eq
  rw [List.length_take, Nat.min_eq_left (Nat.le_of_lt hi)] at hinfo
  rw [PayloadCell.infoStop]
  simp only [sizeofPktInfo, frcDmaSsnBlockSize] at hinfo ⊢
  omega

theorem PayloadLaw.ordered_infos (h : PayloadLaw addr payloads) :
    Segments.Ordered PayloadCell.infoOffset PayloadCell.infoStop
      payloads.reverse := by
  refine List.pairwise_reverse.mpr ?_
  refine List.pairwise_iff_getElem.mpr fun i j hi hj hlt => ?_
  have hfirst := h.infoStop_eq hi
  have hsecond := h.infoStop_eq hj
  simp only [PayloadCell.infoStop, sizeofPktInfo] at hfirst hsecond ⊢
  omega

theorem PayloadLaw.infos_above (h : PayloadLaw addr payloads) {i j : Nat}
    (hi : i < payloads.length) (hj : j < payloads.length) :
    payloads[i].payloadStop ≤ payloads[j].infoOffset := by
  have hroom := h.room
  have hle := totalSize_take_le payloads (i + 1)
  have hinfo := h.infoStop_eq hj
  have hstop := h.payloadStop_eq hi
  simp only [PayloadCell.infoStop, sizeofPktInfo] at hinfo hroom
  omega

/-- The cells of a block of the right shape lie as they should. -/
theorem SsnBlock.Shaped.law {block : SsnBlock} (h : block.Shaped) :
    block.Law := by
  obtain ⟨payloads, hlaw, hcells⟩ := h
  have hmap : (payloads.map SsnFifoCell.payload).filterMap (fun
      | .payload cell => some cell
      | .head _ _ => none) = payloads := by
    rw [List.filterMap_map]
    exact List.filterMap_some
  have hpayloads : block.payloads = payloads := by
    rcases hcells with hcells | ⟨hdr, hcells, -, -⟩
    · rw [SsnBlock.payloads, hcells, hmap]
    · rw [SsnBlock.payloads, hcells, List.filterMap_append, hmap]
      exact List.append_nil _
  have hsum := fun i => hlaw.sum_payloadLen (n := i)
  have hall := hlaw.sum_payloadLen (n := payloads.length)
  rw [List.take_length] at hall
  rw [← hpayloads] at hlaw hsum hall hcells
  refine {
    sameBlock := ?_
    contiguous := ?_
    dataOffset := ?_
    payloadsApart := hlaw.ordered_payloads
    infosFromEnd := fun i hi => hlaw.infoStop_eq hi
    infosApart := hlaw.ordered_infos
    infosAbovePayloads := ?_
    aboveHeader := ?_
    headerLast := ?_ }
  · intro cell hcell
    have hpayload : cell ∈ block.payloads.map SsnFifoCell.payload →
        cell.blockAddr = block.addr := by
      intro hmem
      obtain ⟨payload, hpayload, rfl⟩ := List.mem_map.mp hmem
      exact hlaw.sameBlock payload hpayload
    rcases hcells with hcells | ⟨hdr, hcells, -, -⟩
    · exact hpayload (hcells ▸ hcell)
    · rw [hcells] at hcell
      rcases List.mem_append.mp hcell with hmem | hhead
      · exact hpayload hmem
      · rw [List.mem_singleton.mp hhead]
        rfl
  · intro i hi
    rw [hsum i]
    exact (hlaw.placed i hi).payloadOffset_eq
  · intro i hi
    rw [hsum i]
    exact (hlaw.placed i hi).dataOffset_eq
  · intro cell hcell other hother
    obtain ⟨i, hi, rfl⟩ := List.getElem_of_mem hcell
    obtain ⟨j, hj, rfl⟩ := List.getElem_of_mem hother
    exact hlaw.infos_above hi hj
  · intro cell hcell
    obtain ⟨i, hi, rfl⟩ := List.getElem_of_mem hcell
    have hoffset := (hlaw.placed i hi).payloadOffset_eq
    have habove := hlaw.infos_above hi hi
    rw [PayloadCell.payloadStop] at habove
    exact ⟨by omega, by omega⟩
  · rw [hall]
    exact hcells

end Blocks

section Runs

/-- A call for a session and how the calls that it makes end. -/
inductive SubmitCall where
  | data (current : TsegQent) (work : Nat) (env : SubmitEnv)
  | header (rv : Fre)

def SubmitCall.Valid : SubmitCall → Prop
  | .data current _ _ => SubmitSize current.dataLen
  | .header _ => True

/-- A session and what its calls have done so far. -/
structure SubmitRun where
  ssn : SubmitSsn
  log : List FlowEvent

def SubmitRun.step (run : SubmitRun) : SubmitCall → SubmitRun
  | .data current work env =>
      let result := sbumitDataToFifo run.ssn current work env
      ⟨result.2.1, run.log ++ result.2.2⟩
  | .header rv =>
      let result := sbumitDmaHeaderToFifo run.ssn rv
      ⟨result.2.1, run.log ++ result.2.2⟩

theorem SubmitInv.step {run : SubmitRun} (h : SubmitInv run.ssn run.log)
    {call : SubmitCall} (hcall : call.Valid) :
    SubmitInv (run.step call).ssn (run.step call).log := by
  cases call with
  | data current work env =>
      exact (sbumitDataToFifo_steps work env hcall).inv h
  | header rv => exact (sbumitDmaHeaderToFifo_steps rv).inv h

theorem SubmitInv.run (run : SubmitRun) (h : SubmitInv run.ssn run.log)
    (calls : List SubmitCall) (hcalls : ∀ call ∈ calls, call.Valid) :
    SubmitInv (calls.foldl SubmitRun.step run).ssn
      (calls.foldl SubmitRun.step run).log := by
  induction calls generalizing run with
  | nil => exact h
  | cons call calls ih =>
      exact ih _ (h.step (hcalls call List.mem_cons_self)) fun other hother =>
        hcalls other (List.mem_cons_of_mem call hother)

/-- A session without a block. -/
theorem SubmitInv.start {ssn : SubmitSsn}
    (hflag : ssn.ssnAddr.addrFlag = 0) : SubmitInv ssn [] where
  shaped := by simp [blocksOf]
  filling := fun hopen => absurd hflag hopen
  entered := rfl

/-- Every cell that entered the fifo belongs to a block that the session has
taken, and the cells of every block lie as they should. -/
theorem submitRun_blocks {ssn : SubmitSsn}
    (hflag : ssn.ssnAddr.addrFlag = 0) (calls : List SubmitCall)
    (hcalls : ∀ call ∈ calls, call.Valid) :
    (blocksOf (calls.foldl SubmitRun.step ⟨ssn, []⟩).log).flatMap
        SsnBlock.cells =
      cellsOf (calls.foldl SubmitRun.step ⟨ssn, []⟩).log ∧
    ∀ block ∈ blocksOf (calls.foldl SubmitRun.step ⟨ssn, []⟩).log,
      block.Law := by
  have hinv := SubmitInv.run ⟨ssn, []⟩ (.start hflag) calls hcalls
  exact ⟨hinv.entered, fun block hblock => (hinv.shaped block hblock).law⟩

/-- A session of a new connection. -/
def newSubmitSsn : SubmitSsn where
  sip := 0x0a000001
  dip := 0x0a000002
  sp := 1024
  dp := 80
  proto := 6
  ssnIndex := 7
  contWord1 := 1
  contWord2 := 2
  ssnAddr := ⟨0, 0, 0, 0, 0, 0, 0⟩

/-- A segment of the largest size. -/
def longSegment : TsegQent where
  seq := 1
  ackNum := 1
  nxtSeq := 1601
  data := fun _ => 0
  dataLen := 1600
  direction := .positive

/-- Two segments, the second of which the fifo refuses, and the header. -/
def twoSegments : List SubmitCall :=
  [.data longSegment 1 ⟨some 4096, .success, none, .success⟩,
    .data longSegment 2 ⟨none, .success, none, .exceed⟩, .header .success]

theorem submitRun_blocks_twoSegments :
    (blocksOf (twoSegments.foldl SubmitRun.step ⟨newSubmitSsn, []⟩).log).flatMap
        SsnBlock.cells =
      cellsOf (twoSegments.foldl SubmitRun.step ⟨newSubmitSsn, []⟩).log ∧
    ∀ block ∈ blocksOf
        (twoSegments.foldl SubmitRun.step ⟨newSubmitSsn, []⟩).log,
      block.Law := by
  refine submitRun_blocks rfl twoSegments ?_
  intro call hcall
  simp only [twoSegments, List.mem_cons, List.not_mem_nil, or_false] at hcall
  obtain rfl | rfl | rfl := hcall
  · exact ⟨by decide, by decide⟩
  · exact ⟨by decide, by decide⟩
  · trivial

end Runs

end Barley
