/-
From segments to what the host reads.  The blocks that a session has closed,
read one after the other, hold the segments that were accepted, in their order
and without loss, and no block is taken for a damaged one.
-/
import Barley.SsnWritten

namespace Barley

section Reading

/-- The counters after the packets of some cells. -/
def PrSsnStat.add (stat : PrSsnStat) (payloads : List PayloadCell) :
    PrSsnStat :=
  { stat with
    rxPkts := stat.rxPkts + .ofNat payloads.length
    rxBytes := stat.rxBytes + .ofNat (totalSize payloads) }

/-- All packets go from one of two stations to the other. -/
def BetweenStations (first second : Nat) (payloads : List PayloadCell) :
    Prop :=
  ∀ cell ∈ payloads, (cell.info.smac = first ∧ cell.info.dmac = second) ∨
    (cell.info.smac = second ∧ cell.info.dmac = first)

/-- The variables of the loop when the packets of `front` have been read. -/
structure PrSsnLoop.After (s : PrSsnLoop) (stat : PrSsnStat)
    (front : List PayloadCell) : Prop where
  payloadOffset_eq : s.payloadOffset = sizeofDmaHdr + totalSize front
  pktinfoOffset_eq : s.pktinfoOffset + sizeofPktInfo * (front.length + 1) =
    frcDmaSsnDataSize
  dmac_eq : ∀ first rest, front = first :: rest →
    s.dmac = first.info.onCard.dmac &&& macMask
  stat_eq : s.stat = stat.add front
  dumped_eq : s.dumped = front.map PayloadCell.received

variable {addr : Nat} {front back payloads : List PayloadCell}
  {cell : PayloadCell} {s : PrSsnLoop} {stat : PrSsnStat}

theorem PrSsnStat.add_append (stat : PrSsnStat) (front : List PayloadCell)
    (cell : PayloadCell) :
    stat.add (front ++ [cell]) =
      { stat.add front with
        rxPkts := (stat.add front).rxPkts + 1
        rxBytes := (stat.add front).rxBytes + .ofNat cell.payloadSize } := by
  have hsize : totalSize (front ++ [cell]) =
      totalSize front + cell.payloadSize := by
    rw [totalSize_append]
    rfl
  simp only [PrSsnStat.add, List.length_append, List.length_singleton, hsize,
    UInt64.ofNat_add, UInt64.add_assoc]
  rfl

/-- In a block of packets between two stations, no packet is foreign to the
first one. -/
theorem BetweenStations.not_foreign {first second : Nat}
    (hstations : BetweenStations first second payloads)
    (hafter : s.After stat front) (hfront : front ≠ [])
    (hsub : ∀ other ∈ front, other ∈ payloads) (hcell : cell ∈ payloads) :
    s.foreign cell.info.onCard = false := by
  obtain ⟨head, rest, rfl⟩ := List.exists_cons_of_ne_nil hfront
  have hdmac := hafter.dmac_eq head rest rfl
  have hhead := hstations head (hsub head List.mem_cons_self)
  have hends : head.info.dmac = cell.info.dmac ∨
      head.info.dmac = cell.info.smac := by
    rcases hhead with ⟨-, hd⟩ | ⟨-, hd⟩
    · rcases hstations cell hcell with ⟨-, hd'⟩ | ⟨hs', -⟩
      · exact .inl (hd.trans hd'.symm)
      · exact .inr (hd.trans hs'.symm)
    · rcases hstations cell hcell with ⟨hs', -⟩ | ⟨-, hd'⟩
      · exact .inr (hd.trans hs'.symm)
      · exact .inl (hd.trans hd'.symm)
  rw [PrSsnLoop.foreign, hdmac]
  rcases hends with heq | heq
  · simp only [FrcDmaPktInfo.onCard, heq, bne_self_eq_false, Bool.false_and]
  · simp only [FrcDmaPktInfo.onCard, heq, bne_self_eq_false, Bool.and_false]

theorem PayloadLaw.payloadLen_toNat (h : PayloadLaw addr payloads)
    (hcell : cell ∈ payloads) :
    cell.info.onCard.payloadLen.toNat = cell.payloadSize := by
  obtain ⟨htotal, -⟩ := h.bounds
  have hle : cell.payloadSize ≤ totalSize payloads := by
    obtain ⟨front, back, hsplit⟩ := List.append_of_mem hcell
    have hcons : totalSize (cell :: back) =
        cell.payloadSize + totalSize back := rfl
    rw [hsplit, totalSize_append, hcons]
    omega
  rw [FrcDmaPktInfo.onCard, h.sizes cell hcell, UInt16.toNat_ofNat']
  exact Nat.mod_eq_of_lt (Nat.lt_of_le_of_lt hle htotal)

/-- One more packet has been counted. -/
theorem PrSsnLoop.After.count (hafter : s.After stat front)
    (hlaw : PayloadLaw addr (front ++ cell :: back)) (dmac : UInt64)
    (hdmac : ∀ first rest, front ++ [cell] = first :: rest →
      dmac = first.info.onCard.dmac &&& macMask) :
    PrSsnLoop.After
      { s.count cell.info.onCard with
        dmac := dmac
        dumped := s.dumped ++ [cell.received] } stat (front ++ [cell]) := by
  have hmem : cell ∈ front ++ cell :: back :=
    List.mem_append_right _ List.mem_cons_self
  have hlen := hlaw.payloadLen_toNat hmem
  have hroom := hlaw.room
  have hsplit := totalSize_append front (cell :: back)
  have hcons : totalSize (cell :: back) = cell.payloadSize + totalSize back :=
    rfl
  have hadd : totalSize (front ++ [cell]) =
      totalSize front + cell.payloadSize := by
    rw [totalSize_append]
    rfl
  have hpayload := hafter.payloadOffset_eq
  have hinfo := hafter.pktinfoOffset_eq
  have hbytes : cell.info.onCard.payloadLen.toUInt64 =
      .ofNat cell.payloadSize := by
    rw [← hlen]
    exact (UInt64.ofNat_uInt16ToNat _).symm
  simp only [List.length_append, List.length_cons, frcDmaOffset, sizeofDmaHdr,
    sizeofPktInfo, frcDmaSsnBlockSize, frcDmaSsnDataSize] at *
  refine ⟨?_, ?_, hdmac, ?_, ?_⟩
  · show (s.payloadOffset + cell.info.onCard.payloadLen.toNat) % 2 ^ 16 = _
    rw [hlen, hadd, hpayload, Nat.mod_eq_of_lt (by omega), sizeofDmaHdr]
    omega
  · show (s.pktinfoOffset + (2 ^ 16 - 32)) % 2 ^ 16 + _ = _
    simp only [List.length_append, List.length_singleton, sizeofPktInfo,
      frcDmaSsnDataSize, frcDmaSsnBlockSize, frcDmaOffset]
    omega
  · rw [PrSsnStat.add_append, ← hafter.stat_eq, ← hbytes]
    rfl
  · rw [hafter.dumped_eq, List.map_append]
    rfl

variable {block : SsnBlock} {hdr : FrcDmaHdr} {stack : FrcDmaHdrT}
  {writes : List (Scatter.Write UInt8)} {first second : Nat}

/-- The loop reads one cell of the block after the other, to the last. -/
theorem SsnBlock.Complete.loop (h : block.Complete payloads hdr)
    (hwritten : block.Written stack writes) (before : Nat → UInt8)
    (hstations : BetweenStations first second payloads)
    (hsplit : payloads = front ++ back) (hafter : s.After stat front) :
    ∃ last, prSsnPktLoop (Scatter.run before writes) block.addr back.length
        front.length s = (false, last) ∧ last.After stat payloads := by
  induction back generalizing front s with
  | nil =>
      rw [List.append_nil] at hsplit
      exact ⟨s, rfl, hsplit ▸ hafter⟩
  | cons cell back ih =>
      have hlt : front.length < payloads.length := by
        rw [hsplit, List.length_append, List.length_cons]
        omega
      have hget : payloads[front.length] = cell := by
        simp only [hsplit, List.getElem_append_right (Nat.le_refl _),
          Nat.sub_self, List.getElem_cons_zero]
      have htake : payloads.take front.length = front := by
        rw [hsplit, List.take_left]
      have hcell : cell ∈ payloads := by
        rw [← hget]
        exact List.getElem_mem hlt
      have hinfo : ssnPktInfo (Scatter.run before writes) block.addr s =
          cell.info.onCard := by
        have hfound := h.info_get hwritten before hlt hafter.pktinfoOffset_eq
        rw [hget] at hfound
        exact hfound
      have hpayload : ssnPktPayload (Scatter.run before writes) block.addr s =
          cell.bytes := by
        have hfound := h.payload_read hwritten before hlt
        rw [hget, htake, ← hafter.payloadOffset_eq] at hfound
        rw [ssnPktPayload, hinfo, h.law.payloadLen_toNat hcell]
        exact hfound
      have hnext : payloads = (front ++ [cell]) ++ back := by
        rw [hsplit, List.append_cons]
      have hlaw : PayloadLaw block.addr (front ++ cell :: back) :=
        hsplit ▸ h.law
      have hlen : (front ++ [cell]).length = front.length + 1 := by
        rw [List.length_append, List.length_singleton]
      rw [List.length_cons, prSsnPktLoop]
      simp only [hinfo, hpayload]
      split
      · -- the first packet decides whose addresses are looked for
        rename_i hzero
        have hnil := List.eq_nil_of_length_eq_zero hzero
        have hcounted := hafter.count hlaw (cell.info.onCard.dmac &&& macMask)
          (by
            intro head rest heq
            rw [hnil, List.nil_append] at heq
            injection heq with heq
            rw [heq])
        rw [← hlen]
        exact ih hnext hcounted
      · rename_i hpos
        have hne : front ≠ [] := fun hnil => hpos (by rw [hnil]; rfl)
        have hforeign := hstations.not_foreign hafter hne
          (fun other hother => hsplit ▸ List.mem_append_left _ hother) hcell
        have hcounted := hafter.count hlaw s.dmac (by
          intro head rest heq
          obtain ⟨old, more, hfront⟩ := List.exists_cons_of_ne_nil hne
          rw [hfront, List.cons_append] at heq
          injection heq with heq
          rw [← heq]
          exact hafter.dmac_eq old more hfront)
        rw [hforeign]
        rw [← hlen]
        exact ih hnext hcounted

/-- The host reads a complete block: it counts and dumps all its packets, finds
no error, and clears the block. -/
theorem SsnBlock.Complete.process (h : block.Complete payloads hdr)
    (hwritten : block.Written stack writes) (before : Nat → UInt8)
    (hstations : BetweenStations first second payloads) (stat : PrSsnStat) :
    prSsnDataBlock (Scatter.run before writes) block.addr stat = {
      stat := ({ stat with rxBlocks := stat.rxBlocks + 1 } : PrSsnStat).add
        payloads
      dumped := payloads.map PayloadCell.received
      mem := Ring.write (Scatter.run before writes) block.addr
        (List.replicate frcDmaSsnBlockSize 0) } := by
  have hroom := h.law.room
  have hcount : (hdr.assign stack).pktNum.toNat % 2 ^ 8 = payloads.length := by
    have hlt : payloads.length < 2 ^ 8 := by
      simp only [frcDmaOffset, sizeofDmaHdr, sizeofPktInfo,
        frcDmaSsnBlockSize] at hroom
      omega
    rw [FrcDmaHdr.assign, h.pktNum_eq, UInt16.toNat_ofNat',
      Nat.mod_eq_of_lt (show payloads.length < 2 ^ 16 by omega),
      Nat.mod_eq_of_lt hlt]
  have hstart : PrSsnLoop.After {
      payloadOffset := sizeofDmaHdr
      pktinfoOffset := frcDmaSsnDataSize - sizeofPktInfo
      dmac := 0
      stat := { stat with rxBlocks := stat.rxBlocks + 1 }
      dumped := [] } { stat with rxBlocks := stat.rxBlocks + 1 } [] := {
    payloadOffset_eq := rfl
    pktinfoOffset_eq := rfl
    dmac_eq := by
      intro _ _ heq
      cases heq
    stat_eq := by simp [PrSsnStat.add, totalSize]
    dumped_eq := rfl }
  obtain ⟨last, hloop, hafter⟩ := h.loop hwritten before hstations
    (List.nil_append payloads).symm hstart
  rw [prSsnDataBlock, h.head_get hwritten before, prSsnPktProcess, hcount]
  rw [List.length_nil] at hloop
  simp only [hloop, hafter.stat_eq, hafter.dumped_eq, Bool.false_eq_true,
    if_false]

end Reading

section Accepted

/-- A segment as the host gets it. -/
structure SsnSegment where
  sequence : UInt32
  ackSeq : UInt32
  direction : UInt16
  smac : UInt64
  dmac : UInt64
  payload : List UInt8
deriving DecidableEq, Repr

def PrSsnPkt.segment (pkt : PrSsnPkt) : SsnSegment where
  sequence := pkt.info.sequence
  ackSeq := pkt.info.ackSeq
  direction := pkt.info.direction
  smac := pkt.info.smac
  dmac := pkt.info.dmac
  payload := pkt.payload

/-- The two stations of a session. -/
def SubmitSsn.stations (ssn : SubmitSsn) : Nat × Nat :=
  (ssn.contWord1 &&& 0xffffffffffff, ssn.contWord2 &&& 0xffffffffffff)

/-- A segment of a session with the given stations, the first of which is the
sender in the positive direction. -/
def TsegQent.segment (current : TsegQent) (stations : Nat × Nat) :
    SsnSegment where
  sequence := .ofNat current.seq
  ackSeq := .ofNat current.ackNum
  direction := current.direction.onCard
  smac := .ofNat (match current.direction with
    | .positive => stations.1
    | .negative => stations.2)
  dmac := .ofNat (match current.direction with
    | .positive => stations.2
    | .negative => stations.1)
  payload := (List.range current.dataLen).map current.data

/-- The segments for which `sbumit_data_to_fifo` succeeds. -/
def SubmitRun.accepted : SubmitRun → List SubmitCall → List TsegQent
  | _, [] => []
  | run, .data current work env :: calls =>
      let rest := accepted (run.step (.data current work env)) calls
      if (sbumitDataToFifo run.ssn current work env).1 = .success then
        current :: rest
      else rest
  | run, .header rv :: calls => accepted (run.step (.header rv)) calls

/-- The payload cells that have entered the fifo. -/
def payloadsOf (log : List FlowEvent) : List PayloadCell :=
  log.filterMap fun
    | .cell (.payload cell) => some cell
    | _ => none

variable {ssn ssn' : SubmitSsn} {log events : List FlowEvent}
  {current : TsegQent}

theorem payloadsOf_append (log events : List FlowEvent) :
    payloadsOf (log ++ events) = payloadsOf log ++ payloadsOf events :=
  List.filterMap_append

theorem SubmitSsn.advance_stations (ssn : SubmitSsn) (dataLen : Nat) :
    (ssn.advance dataLen).stations = ssn.stations := by
  have hfields : (ssn.advance dataLen).contWord1 = ssn.contWord1 ∧
      (ssn.advance dataLen).contWord2 = ssn.contWord2 := by
    obtain ⟨sip, dip, sp, dp, proto, ssnIndex, word1, word2, ssnAddr⟩ := ssn
    -- with `rfl` the kernel would compare the offsets first
    exact ⟨Eq.refl word1, Eq.refl word2⟩
  rw [SubmitSsn.stations, hfields.1, hfields.2]
  rfl

theorem SubmitSteps.stations_eq (h : SubmitSteps ssn events ssn') :
    ssn'.stations = ssn.stations := by
  induction h with
  | done ssn => rfl
  | block addr hflag rest ih => exact ih
  | head hflag rest ih => exact ih
  | payload current hflag hsize hfits rest ih =>
      exact ih.trans (SubmitSsn.advance_stations _ _)
  | workFree work rest ih => exact ih

/-- Payload cells are between the stations of the session. -/
theorem SubmitSteps.between (h : SubmitSteps ssn events ssn') :
    BetweenStations ssn.stations.1 ssn.stations.2 (payloadsOf events) := by
  induction h with
  | done ssn => exact fun cell hcell => nomatch hcell
  | block addr hflag rest ih => exact ih
  | head hflag rest ih => exact ih
  | @payload ssn ssn' events current hflag hsize hfits rest ih =>
      intro cell hcell
      rcases List.mem_cons.mp hcell with rfl | hrest
      · simp only [SubmitSsn.payloadCell, SubmitSsn.pktInfo,
          SubmitSsn.stations]
        cases current.direction with
        | positive => exact .inl ⟨rfl, rfl⟩
        | negative => exact .inr ⟨rfl, rfl⟩
      · rw [SubmitSsn.advance_stations] at ih
        exact ih cell hrest
  | workFree work rest ih => exact ih

/-- A payload cell holds the segment it is for. -/
theorem payloadCell_segment (ssn : SubmitSsn)
    (hsize : SubmitSize current.dataLen) :
    (ssn.payloadCell current).received.segment =
      current.segment ssn.stations := by
  have hlen : current.dataLen % 2 ^ 16 = current.dataLen :=
    Nat.mod_eq_of_lt (by have hle := hsize.2; omega)
  cases hdirection : current.direction <;>
    simp only [PayloadCell.received, PayloadCell.bytes, SubmitSsn.payloadCell,
      SubmitSsn.pktInfo, PrSsnPkt.segment, FrcDmaPktInfo.onCard,
      TsegQent.segment, SubmitSsn.stations, hlen, hdirection]

theorem submitPayload_payloads (ssn : SubmitSsn) (work : Nat) (rv : Fre)
    (hsize : SubmitSize current.dataLen) :
    (payloadsOf (submitPayload ssn current work rv).2.2).map
        (fun cell => cell.received.segment) =
      if (submitPayload ssn current work rv).1 = .success then
        [current.segment ssn.stations]
      else [] := by
  rw [submitPayload]
  split
  · rfl
  · rw [if_pos rfl, ← payloadCell_segment ssn hsize]
    rfl

theorem submitToBlock_payloads (ssn : SubmitSsn) (work : Nat) (env : SubmitEnv)
    (hsize : SubmitSize current.dataLen) :
    (payloadsOf (submitToBlock ssn current work env).2.2).map
        (fun cell => cell.received.segment) =
      if (submitToBlock ssn current work env).1 = .success then
        [current.segment ssn.stations]
      else [] := by
  have hclosed : ssn.close.ssnAddr.addrFlag = 0 := rfl
  rw [submitToBlock]
  split
  · split
    · rfl
    · cases env.nextBlock with
      | none =>
          rw [checkSsnAddr_none hclosed]
          rfl
      | some addr =>
          rw [checkSsnAddr_some hclosed]
          exact submitPayload_payloads { ssn with ssnAddr := .fresh addr }
            work env.payloadRv hsize
  · exact submitPayload_payloads ssn work env.payloadRv hsize

/-- A call puts the segment into a block if and only if it succeeds. -/
theorem sbumitDataToFifo_payloads (ssn : SubmitSsn) (work : Nat) (env : SubmitEnv)
    (hsize : SubmitSize current.dataLen) :
    (payloadsOf (sbumitDataToFifo ssn current work env).2.2).map
        (fun cell => cell.received.segment) =
      if (sbumitDataToFifo ssn current work env).1 = .success then
        [current.segment ssn.stations]
      else [] := by
  rw [sbumitDataToFifo]
  by_cases hflag : ssn.ssnAddr.addrFlag = 0
  · cases env.firstBlock with
    | none =>
        rw [checkSsnAddr_none hflag]
        rfl
    | some addr =>
        rw [checkSsnAddr_some hflag]
        exact submitToBlock_payloads { ssn with ssnAddr := .fresh addr }
          work env hsize
  · rw [checkSsnAddr_of_flag hflag]
    exact submitToBlock_payloads ssn work env hsize

theorem sbumitDmaHeaderToFifo_payloads (rv : Fre) :
    payloadsOf (sbumitDmaHeaderToFifo ssn rv).2.2 = [] := by
  rw [sbumitDmaHeaderToFifo]
  split
  · split <;> rfl
  · rfl

end Accepted

section Headed

variable {ssn ssn' : SubmitSsn} {log events : List FlowEvent}

/-- The block ends with its header. -/
def SsnBlock.HasHead (block : SsnBlock) : Prop :=
  ∃ cells hdr, block.cells = cells ++ [.head hdr block.addr]

/-- Every block has its header, but for the one that is being filled. -/
structure Headed (ssn : SubmitSsn) (log : List FlowEvent) : Prop where
  inv : SubmitInv ssn log
  all : ssn.ssnAddr.addrFlag = 0 → ∀ block ∈ blocksOf log, block.HasHead
  others : ssn.ssnAddr.addrFlag ≠ 0 →
    ∀ block ∈ (blocksOf log).dropLast, block.HasHead

theorem Headed.block (h : Headed ssn log) (addr : Nat)
    (hflag : ssn.ssnAddr.addrFlag = 0) :
    Headed { ssn with ssnAddr := .fresh addr } (log ++ [.block addr]) where
  inv := h.inv.block addr
  all hclosed := absurd hclosed Nat.one_ne_zero
  others _ := by
    rw [blocksOf_append, addEvent, List.dropLast_concat]
    exact h.all hflag

theorem Headed.head (h : Headed ssn log) (hflag : ssn.ssnAddr.addrFlag ≠ 0) :
    Headed ssn.close (log ++ [ssn.headCell]) where
  inv := h.inv.head hflag
  all _ := by
    obtain ⟨closed, payloads, hblocks, -⟩ := h.inv.filling hflag
    have hothers := h.others hflag
    rw [hblocks, List.dropLast_concat] at hothers
    rw [blocksOf_append, hblocks, SubmitSsn.headCell, addEvent_cell]
    intro block hblock
    rcases List.mem_append.mp hblock with hold | hnew
    · exact hothers block hold
    · rw [List.mem_singleton.mp hnew]
      exact ⟨_, _, rfl⟩
  others hopen := absurd rfl hopen

theorem SubmitSsn.advance_addrFlag (ssn : SubmitSsn) (dataLen : Nat) :
    (ssn.advance dataLen).ssnAddr.addrFlag = ssn.ssnAddr.addrFlag := by
  obtain ⟨sip, dip, sp, dp, proto, ssnIndex, word1, word2, ssnAddr⟩ := ssn
  obtain ⟨blockAddr, headOffset, infoOffset, payloadOffset, flag, len, num⟩ :=
    ssnAddr
  exact Eq.refl flag

theorem Headed.payload (h : Headed ssn log) {current : TsegQent}
    (hflag : ssn.ssnAddr.addrFlag ≠ 0) (hsize : SubmitSize current.dataLen)
    (hfits : ¬ ssn.full current.dataLen) :
    Headed (ssn.advance current.dataLen)
      (log ++ [.cell (.payload (ssn.payloadCell current))]) where
  inv := h.inv.payload hflag hsize hfits
  all hclosed := by
    rw [SubmitSsn.advance_addrFlag] at hclosed
    exact absurd hclosed hflag
  others _ := by
    obtain ⟨closed, payloads, hblocks, -⟩ := h.inv.filling hflag
    have hothers := h.others hflag
    rw [hblocks, List.dropLast_concat] at hothers
    rw [blocksOf_append, hblocks, addEvent_cell, List.dropLast_concat]
    exact hothers

theorem Headed.workFree (h : Headed ssn log) (work : Nat) :
    Headed ssn (log ++ [.workFree work]) where
  inv := h.inv.workFree work
  all hclosed := by
    rw [blocksOf_append]
    exact h.all hclosed
  others hopen := by
    rw [blocksOf_append]
    exact h.others hopen

theorem SubmitSteps.headed (hsteps : SubmitSteps ssn events ssn')
    (h : Headed ssn log) : Headed ssn' (log ++ events) := by
  induction hsteps generalizing log with
  | done ssn =>
      rw [List.append_nil]
      exact h
  | block addr hflag rest ih =>
      rw [List.append_cons]
      exact ih (h.block addr hflag)
  | head hflag rest ih =>
      rw [List.append_cons]
      exact ih (h.head hflag)
  | payload current hflag hsize hfits rest ih =>
      rw [List.append_cons]
      exact ih (h.payload hflag hsize hfits)
  | workFree work rest ih =>
      rw [List.append_cons]
      exact ih (h.workFree work)

/-- A block with its header has all that the host needs. -/
theorem SsnBlock.Shaped.complete {block : SsnBlock} (h : block.Shaped)
    (hhead : block.HasHead) :
    ∃ hdr, block.Complete block.payloads hdr := by
  obtain ⟨payloads, hlaw, hcells⟩ := h
  obtain ⟨cells, hdr, hends⟩ := hhead
  have hmap : SsnBlock.payloads ⟨block.addr, payloads.map .payload⟩ =
      payloads := by
    rw [SsnBlock.payloads, List.filterMap_map]
    exact List.filterMap_some
  rcases hcells with hopen | ⟨hdr', hclosed, hnum, htotal⟩
  · -- without a header the last cell would be a payload
    have hmem : SsnFifoCell.head hdr block.addr ∈
        payloads.map SsnFifoCell.payload := by
      rw [← hopen, hends]
      exact List.mem_append_right _ (List.mem_singleton_self _)
    obtain ⟨payload, -, hcell⟩ := List.mem_map.mp hmem
    cases hcell
  · have hpayloads : block.payloads = payloads := by
      rw [SsnBlock.payloads, hclosed, List.filterMap_append]
      exact (List.append_nil _).trans hmap
    rw [hpayloads]
    exact ⟨hdr', hlaw, hclosed, hnum, htotal⟩

end Headed

section Runs

/-- `pr_ssn_data_thread` for one block after the other, each with the memory at
its time. -/
def prSsnDataThread :
    PrSsnStat → List (Nat × (Nat → UInt8)) → PrSsnStat × List PrSsnPkt
  | stat, [] => (stat, [])
  | stat, (dmaPkt, mem) :: rest =>
      let read := prSsnDataBlock mem dmaPkt stat
      let (last, dumped) := prSsnDataThread read.stat rest
      (last, read.dumped ++ dumped)

/-- The counters after blocks with the packets of some cells. -/
def PrSsnStat.addBlocks (stat : PrSsnStat) (blocks : Nat)
    (payloads : List PayloadCell) : PrSsnStat :=
  PrSsnStat.add { stat with rxBlocks := stat.rxBlocks + .ofNat blocks }
    payloads

theorem PrSsnStat.addBlocks_append (stat : PrSsnStat) (blocks : Nat)
    (front back : List PayloadCell) :
    (PrSsnStat.add { stat with rxBlocks := stat.rxBlocks + 1 }
        front).addBlocks blocks back =
      stat.addBlocks (blocks + 1) (front ++ back) := by
  simp only [PrSsnStat.addBlocks, PrSsnStat.add, List.length_append,
    totalSize_append, UInt64.ofNat_add, UInt64.add_assoc, UInt64.ofNat_one,
    UInt64.add_comm (UInt64.ofNat blocks) 1]

/-- Complete blocks between the same stations are read one after the other. -/
theorem prSsnDataThread_blocks {first second : Nat} {blocks : List SsnBlock}
    {mems : List (Nat → UInt8)}
    (hmems : List.Forall₂ SsnBlock.InMemory blocks mems)
    (hblocks : ∀ block ∈ blocks, ∃ hdr, block.Complete block.payloads hdr)
    (hstations : BetweenStations first second
      (blocks.flatMap SsnBlock.payloads)) (stat : PrSsnStat) :
    prSsnDataThread stat ((blocks.map SsnBlock.addr).zip mems) =
      (stat.addBlocks blocks.length (blocks.flatMap SsnBlock.payloads),
        (blocks.flatMap SsnBlock.payloads).map PayloadCell.received) := by
  induction hmems generalizing stat with
  | nil => simp [prSsnDataThread, PrSsnStat.addBlocks, PrSsnStat.add, totalSize]
  | @cons block mem blocks mems hmem hrest ih =>
      obtain ⟨before, stack, writes, hwritten, rfl⟩ := hmem
      obtain ⟨hdr, hcomplete⟩ := hblocks block List.mem_cons_self
      rw [List.flatMap_cons] at hstations
      have hfirst : BetweenStations first second block.payloads :=
        fun cell hcell => hstations cell (List.mem_append_left _ hcell)
      have hlater : BetweenStations first second
          (blocks.flatMap SsnBlock.payloads) :=
        fun cell hcell => hstations cell (List.mem_append_right _ hcell)
      have hread := hcomplete.process hwritten before hfirst stat
      have hthread := ih (fun other hother =>
        hblocks other (List.mem_cons_of_mem block hother)) hlater
      rw [List.map_cons, List.zip_cons_cons, prSsnDataThread, hread]
      simp only [hthread, PrSsnStat.addBlocks_append, List.length_cons,
        List.flatMap_cons, List.map_append]

theorem flatMap_payloads (log : List FlowEvent) :
    (cellsOf log).filterMap (fun
      | .payload cell => some cell
      | .head _ _ => none) = payloadsOf log := by
  rw [cellsOf, List.filterMap_filterMap, payloadsOf]
  congr 1
  funext event
  cases event with
  | cell cell => cases cell <;> rfl
  | _ => rfl

/-- The blocks hold the payload cells of the log. -/
theorem SubmitInv.payloads_eq {ssn : SubmitSsn} {log : List FlowEvent}
    (h : SubmitInv ssn log) :
    (blocksOf log).flatMap SsnBlock.payloads = payloadsOf log := by
  rw [← flatMap_payloads, ← h.entered, List.filterMap_flatMap]
  rfl

/-- What the calls have put into blocks are the segments they accepted. -/
theorem SubmitRun.accepted_payloads (run : SubmitRun)
    (calls : List SubmitCall) (hcalls : ∀ call ∈ calls, call.Valid) :
    ∃ events, (calls.foldl SubmitRun.step run).log = run.log ++ events ∧
      SubmitSteps run.ssn events (calls.foldl SubmitRun.step run).ssn ∧
      (payloadsOf events).map (fun cell => cell.received.segment) =
        (run.accepted calls).map (TsegQent.segment · run.ssn.stations) := by
  induction calls generalizing run with
  | nil => exact ⟨[], (List.append_nil _).symm, .done _, rfl⟩
  | cons call calls ih =>
      have hvalid := hcalls call List.mem_cons_self
      obtain ⟨events, hlog, hsteps, hsegments⟩ := ih (run.step call)
        fun other hother => hcalls other (List.mem_cons_of_mem call hother)
      cases call with
      | data current work env =>
          have hfirst : SubmitSteps run.ssn
              (sbumitDataToFifo run.ssn current work env).2.2
              (sbumitDataToFifo run.ssn current work env).2.1 :=
            sbumitDataToFifo_steps work env hvalid
          have hstations := hfirst.stations_eq
          have hcell := sbumitDataToFifo_payloads run.ssn work env hvalid
          refine ⟨(sbumitDataToFifo run.ssn current work env).2.2 ++ events,
            ?_, hfirst.append hsteps, ?_⟩
          · rw [List.foldl_cons, hlog, ← List.append_assoc]
            rfl
          · rw [payloadsOf_append, List.map_append, hsegments, hcell,
              SubmitRun.accepted]
            simp only [SubmitRun.step, hstations]
            split <;> rfl
      | header rv =>
          have hfirst : SubmitSteps run.ssn
              (sbumitDmaHeaderToFifo run.ssn rv).2.2
              (sbumitDmaHeaderToFifo run.ssn rv).2.1 :=
            sbumitDmaHeaderToFifo_steps rv
          have hstations := hfirst.stations_eq
          refine ⟨(sbumitDmaHeaderToFifo run.ssn rv).2.2 ++ events, ?_,
            hfirst.append hsteps, ?_⟩
          · rw [List.foldl_cons, hlog, ← List.append_assoc]
            rfl
          · rw [payloadsOf_append, sbumitDmaHeaderToFifo_payloads,
              List.nil_append, hsegments]
            simp only [SubmitRun.step, hstations, SubmitRun.accepted]

theorem Headed.start {ssn : SubmitSsn} (hflag : ssn.ssnAddr.addrFlag = 0) :
    Headed ssn [] where
  inv := .start hflag
  all _ := by simp [blocksOf]
  others hopen := absurd hflag hopen

/-- The number of bytes of some segments. -/
def totalLen (segments : List SsnSegment) : Nat :=
  (segments.map fun segment => segment.payload.length).sum

theorem totalSize_eq (payloads : List PayloadCell) :
    totalSize payloads =
      totalLen (payloads.map fun cell => cell.received.segment) := by
  rw [totalLen, totalSize, List.map_map]
  congr 1
  refine List.map_congr_left fun cell _ => ?_
  simp [PayloadCell.received, PayloadCell.bytes, PrSsnPkt.segment]

/-- Whatever the calls for a session are and however they end: when its last
block is closed, the host reads from its blocks the segments that were
accepted, in their order, and counts them without an error. -/
theorem prSsnDataThread_submitRun {ssn : SubmitSsn}
    (hflag : ssn.ssnAddr.addrFlag = 0) (calls : List SubmitCall)
    (hcalls : ∀ call ∈ calls, call.Valid)
    (hclosed : (calls.foldl SubmitRun.step ⟨ssn, []⟩).ssn.ssnAddr.addrFlag = 0)
    {mems : List (Nat → UInt8)}
    (hmems : List.Forall₂ SsnBlock.InMemory
      (blocksOf (calls.foldl SubmitRun.step ⟨ssn, []⟩).log) mems)
    (stat : PrSsnStat) :
    let blocks := blocksOf (calls.foldl SubmitRun.step ⟨ssn, []⟩).log
    let read := prSsnDataThread stat ((blocks.map SsnBlock.addr).zip mems)
    let segments := (SubmitRun.accepted ⟨ssn, []⟩ calls).map
      (TsegQent.segment · ssn.stations)
    read.2.map PrSsnPkt.segment = segments ∧
      read.1 = {
        rxBlocks := stat.rxBlocks + .ofNat blocks.length
        rxErrors := stat.rxErrors
        rxPkts := stat.rxPkts + .ofNat segments.length
        rxBytes := stat.rxBytes + .ofNat (totalLen segments) } := by
  obtain ⟨events, hlog, hsteps, hsegments⟩ :=
    SubmitRun.accepted_payloads ⟨ssn, []⟩ calls hcalls
  rw [List.nil_append] at hlog
  have hheaded := hsteps.headed (.start hflag)
  rw [List.nil_append, ← hlog] at hheaded
  have hcomplete : ∀ block ∈ blocksOf
      (calls.foldl SubmitRun.step ⟨ssn, []⟩).log,
      ∃ hdr, block.Complete block.payloads hdr := fun block hblock =>
    (hheaded.inv.shaped block hblock).complete
      (hheaded.all hclosed block hblock)
  have hpayloads := hheaded.inv.payloads_eq
  have hstations := hsteps.between
  rw [← hlog, ← hpayloads] at hstations
  have hread := prSsnDataThread_blocks hmems hcomplete hstations stat
  rw [← hlog, ← hpayloads] at hsegments
  intro blocks read segments
  have hall : read = _ := hread
  refine ⟨?_, ?_⟩
  · rw [hall, List.map_map]
    exact hsegments
  · have hlen := congrArg List.length hsegments
    rw [List.length_map] at hlen
    have htotal := totalSize_eq (blocks.flatMap SsnBlock.payloads)
    rw [hsegments] at htotal
    rw [hall, PrSsnStat.addBlocks, PrSsnStat.add, hlen, htotal]

/-- The memory of a block after its cells have been written in turn. -/
def SsnBlock.mem (block : SsnBlock) : Nat → UInt8 :=
  Scatter.run (fun _ => 0) (block.cells.flatMap (SsnFifoCell.writes default))

theorem SsnBlock.inMemory (block : SsnBlock) : block.InMemory block.mem := by
  refine ⟨_, default, _, ⟨?_, ?_⟩, rfl⟩
  · intro cell hcell write hwrite
    exact List.mem_flatMap.mpr ⟨cell, hcell, hwrite⟩
  · intro write hwrite
    exact .inl (List.mem_flatMap.mp hwrite)

theorem prSsnDataThread_twoSegments :
    let blocks := blocksOf (twoSegments.foldl SubmitRun.step
      ⟨newSubmitSsn, []⟩).log
    let read := prSsnDataThread ⟨0, 0, 0, 0⟩
      ((blocks.map SsnBlock.addr).zip (blocks.map SsnBlock.mem))
    let segments := (SubmitRun.accepted ⟨newSubmitSsn, []⟩ twoSegments).map
      (TsegQent.segment · newSubmitSsn.stations)
    read.2.map PrSsnPkt.segment = segments ∧
      read.1 = {
        rxBlocks := 0 + .ofNat blocks.length
        rxErrors := 0
        rxPkts := 0 + .ofNat segments.length
        rxBytes := 0 + .ofNat (totalLen segments) } := by
  refine prSsnDataThread_submitRun rfl twoSegments ?_ rfl ?_ ⟨0, 0, 0, 0⟩
  · intro call hcall
    simp only [twoSegments, List.mem_cons, List.not_mem_nil, or_false] at hcall
    obtain rfl | rfl | rfl := hcall
    · exact ⟨by decide, by decide⟩
    · exact ⟨by decide, by decide⟩
    · trivial
  · rw [List.forall₂_map_right_iff]
    exact List.forall₂_same.mpr fun block _ => block.inMemory

end Runs

end Barley
