/-
Packets on a simple channel.  Cores put packets into the cells of their fifos,
write cells to the blocks they hold, and complete the blocks, written or not;
one thread of the host takes a block, reads it and returns it.  Every write to
a block is a step of its own.
-/
import Barley.ChanSafety
import Barley.SimplePackets

namespace Barley

/-- The packets of a channel: how a core adds one to its fifo, its bytes, and
how the host reads a block. -/
structure ChanFormat (P R : Type) where
  add : DmaLimits → SimpleFifo → P → Fre × SimpleFifo
  frame : P → List UInt8
  get : (Nat → UInt8) → Nat → Option R
  received : P → R

/-- The bytes of a packet fit into a block, and the host can take them
apart. -/
structure ChanFormat.Lawful {P R : Type} (format : ChanFormat P R) : Prop where
  add_eq : ∀ lim fifo packet, ∃ hdr info payload,
    format.add lim fifo packet = fifo.add lim hdr info payload ∧
      format.frame packet = hdr ++ payload ++ info
  fits : ∀ packet,
    (format.frame packet).length ≤ frcDmaSimplePackageDataSize
  get_frame : ∀ mem dmaPkt packet,
    Ring.read mem (dmaPkt + frcDmaOffset) (format.frame packet).length =
        format.frame packet →
      format.get mem dmaPkt = some (format.received packet)

section Formats

/-- The packets that fit into a block without a rule id.  The fifo accepts
longer ones too, up to 2048 bytes; their cells run over into the next ones. -/
def SmallPacket : Type :=
  { packet : SimplePacket //
    packet.payload.length + sizeofDmaHdr + sizeofPktInfo ≤
      frcDmaSimplePackageDataSize }

/-- The packets that fit into a block with a rule id, which the fifo does not
make sure of either. -/
def SmallRulePacket : Type :=
  { packet : SimplePacket × UInt16 //
    packet.1.payload.length + 2 + sizeofDmaHdr + sizeofPktInfo ≤
      frcDmaSimplePackageDataSize }

/-- The channel of `FRC_WORK_UDP`. -/
def udpFormat : ChanFormat SmallPacket FrcSimplePkt where
  add lim fifo packet := frcoreSimplePackageFifoAdd lim fifo packet.val.bytes
  frame packet := packet.val.frame []
  get := prSimplePktGet
  received packet := packet.val.received

/-- The channel of `FRC_WORK_RULE`. -/
def ruleFormat : ChanFormat SmallRulePacket FrcSimpleRulePkt where
  add lim fifo packet := frcoreRulePacketFifoAdd lim fifo packet.val.1.bytes
    (ruleIdBytes packet.val.2)
  frame packet := packet.val.1.frame (ruleIdBytes packet.val.2).bytes
  get := prSimpleRulePktGet
  received packet := packet.val.1.receivedRule packet.val.2

theorem udpFormat_lawful : udpFormat.Lawful where
  add_eq lim fifo packet := by
    refine ⟨_, _, _, rfl, ?_⟩
    simp only [udpFormat, SimplePacket.frame, SimplePacket.bytes,
      List.nil_append, List.append_assoc]
  fits packet := by
    have hsize := packet.property
    have hlen := packet.val.length_frame []
    rw [List.length_nil] at hlen
    show (packet.val.frame []).length ≤ _
    omega
  get_frame mem dmaPkt packet hread := by
    have hsize := packet.property
    have hblock : packet.val.InBlock [] mem dmaPkt := hread
    simp only [udpFormat]
    apply hblock.get
    simp only [frcDmaPktDataSize, frcDmaSimplePackageDataSize,
      frcDmaSimplePackageBlockSize, frcDmaOffset, sizeofDmaHdr,
      sizeofPktInfo] at hsize ⊢
    omega

theorem ruleFormat_lawful : ruleFormat.Lawful where
  add_eq lim fifo packet := by
    refine ⟨_, _, _, frcoreRulePacketFifoAdd_eq lim fifo packet.val.1.bytes
      (ruleIdBytes packet.val.2), ?_⟩
    simp only [ruleFormat, SimplePacket.frame, SimplePacket.bytes,
      List.append_assoc]
  fits packet := by
    have hsize := packet.property
    have hlen := packet.val.1.length_frame (ruleIdBytes packet.val.2).bytes
    rw [(ruleIdBytes packet.val.2).length] at hlen
    show (packet.val.1.frame _).length ≤ _
    omega
  get_frame mem dmaPkt packet hread := by
    have hsize := packet.property
    have hblock : packet.val.1.InBlock (ruleIdBytes packet.val.2).bytes mem
      dmaPkt := hread
    simp only [ruleFormat]
    apply hblock.getRule
    simp only [frcDmaPktDataSize, frcDmaSimplePackageDataSize,
      frcDmaSimplePackageBlockSize, frcDmaOffset, sizeofDmaHdr,
      sizeofPktInfo] at hsize ⊢
    omega

end Formats

section Fifo

variable {lim : DmaLimits} {fifo next : SimpleFifo} {cells : List FifoCell}
  {sent : Nat}

/-- The fifo of a core that has been given `sent` packets, with the cells it
has yet to post. -/
structure FifoLog (lim : DmaLimits) (fifo : SimpleFifo)
    (cells : List FifoCell) (sent : Nat) : Prop where
  widx : fifo.localWidx = sent
  ridx : fifo.localRidx + cells.length = sent
  room : cells.length ≤ lim.coreFifoNum
  log : Ring.window lim.coreFifoNum fifo.fifoCell fifo.localRidx
    cells.length = cells

theorem FifoLog.localNum_eq (h : FifoLog lim fifo cells sent)
    (hfew : sent < 2 ^ 64) : fifo.localNum = cells.length := by
  have hridx := h.ridx
  rw [SimpleFifo.localNum, h.widx, sub64_eq (by omega) hfew]
  omega

/-- A packet that is accepted comes behind the others. -/
theorem FifoLog.add (h : FifoLog lim fifo cells sent)
    {hdr info payload : List UInt8} (hfew : sent + 1 < 2 ^ 64)
    (hadd : fifo.add lim hdr info payload = (.success, next)) :
    FifoLog lim next (cells ++ [⟨(hdr ++ payload ++ info).length,
      hdr ++ payload ++ info⟩]) (sent + 1) := by
  have hridx := h.ridx
  have hnum := h.localNum_eq (by omega)
  have hlen : (hdr ++ payload ++ info).length =
      hdr.length + info.length + payload.length := by
    simp only [List.length_append]
    omega
  unfold SimpleFifo.add at hadd
  simp only [hnum] at hadd
  split at hadd
  · cases hadd
  · split at hadd
    · cases hadd
    · rename_i hfull
      cases hadd
      have hwrites : Ring.Writes lim.coreFifoNum
          (fifo.localRidx + cells.length) 1 fifo.fifoCell
          (Function.update fifo.fifoCell (fifo.localWidx % lim.coreFifoNum)
            ⟨hdr.length + info.length + payload.length,
              hdr ++ payload ++ info⟩) := by
        intro slot hslot
        have hne := hslot 0 Nat.one_pos
        rw [Nat.add_zero, hridx, ← h.widx] at hne
        exact Function.update_of_ne hne _ _
      refine ⟨?_, ?_, ?_, ?_⟩
      · show add64 fifo.localWidx 1 = _
        rw [h.widx, add64_eq hfew]
      · rw [List.length_append, List.length_singleton]
        show fifo.localRidx + _ = _
        omega
      · rw [List.length_append, List.length_singleton]
        omega
      · rw [List.length_append, List.length_singleton, Ring.window_append,
          Ring.window_one, hwrites.window_eq (Nat.le_refl _) (by omega), h.log,
          hridx, ← h.widx, hlen]
        simp

/-- The cell at distance `cur` from the head. -/
theorem FifoLog.cell_eq (h : FifoLog lim fifo cells sent)
    (hfew : sent < 2 ^ 64) {cur : Nat} (hcur : cur < cells.length) :
    fifo.fifoCell (add64 fifo.localRidx cur % lim.coreFifoNum) =
      cells[cur] := by
  have hridx := h.ridx
  have hget := congrArg (fun items => items[cur]?) h.log
  rw [add64_eq (by omega)]
  simp only [Ring.window, List.getElem?_map, List.getElem?_range hcur,
    Option.map_some, List.getElem?_eq_getElem hcur, Option.some_inj] at hget
  exact hget

/-- The first cells have been posted. -/
theorem FifoLog.leave (h : FifoLog lim fifo cells sent)
    (hfew : sent < 2 ^ 64) {count : Nat} (hcount : count ≤ cells.length) :
    FifoLog lim { fifo with localRidx := add64 fifo.localRidx count }
      (cells.drop count) sent := by
  have hridx := h.ridx
  have hroom := h.room
  have hsum : add64 fifo.localRidx count = fifo.localRidx + count :=
    add64_eq (by omega)
  have hsplit := h.log
  obtain ⟨rest, hrest⟩ := Nat.exists_eq_add_of_le hcount
  rw [hrest, Ring.window_append] at hsplit
  have hdrop := congrArg (List.drop count) hsplit
  have hlen := Ring.length_window lim.coreFifoNum fifo.fifoCell fifo.localRidx
    count
  rw [List.drop_append_of_le_length (Nat.le_of_eq hlen.symm),
    List.drop_of_length_le (Nat.le_of_eq hlen), List.nil_append] at hdrop
  refine ⟨h.widx, ?_, ?_, ?_⟩
  · rw [List.length_drop]
    show add64 fifo.localRidx count + _ = _
    omega
  · rw [List.length_drop]
    omega
  · rw [List.length_drop, hrest, Nat.add_sub_cancel_left]
    show Ring.window _ _ (add64 fifo.localRidx count) rest = _
    rw [hsum, hdrop]

end Fifo

/-- A packet whose block has been completed, and whether its bytes were in the
block. -/
structure Posted (C P : Type) where
  core : C
  packet : P
  written : Bool

/-- The channel with the memory of the host, the fifos of the cores with the
blocks they have written to, and what the host has read of a block that it has
taken.  `queue`, `sent`, `posted` and `received` record the packets. -/
structure FlowState (C P R : Type) where
  chan : ChanState C
  mem : Nat → UInt8
  fifo : C → SimpleFifo
  wrote : C → Finset Nat
  got : Option (Option R)
  queue : C → List P
  sent : C → List P
  posted : List (Posted C P)
  received : List (Option R)

section Steps

variable {C P R : Type} [DecidableEq C]

namespace FlowState

def add (st : FlowState C P R) (core : C) (packet : P) (next : SimpleFifo) :
    FlowState C P R :=
  { st with
    fifo := Function.update st.fifo core next
    queue := Function.update st.queue core (st.queue core ++ [packet])
    sent := Function.update st.sent core (st.sent core ++ [packet]) }

/-- What a pointer of a descriptor writes. -/
def cellWrite (lim : DmaLimits) (fifo : SimpleFifo) (addr cur : Nat) :
    Scatter.Write UInt8 :=
  let entry := fifo.entry lim addr cur
  ⟨entry.remoteAddr, (fifo.fifoCell entry.localPtr).data.take entry.size⟩

/-- The write of a core's cell to the block at the same place. -/
def scatter (st : FlowState C P R) (lim : DmaLimits) (core : C) (cur : Nat) :
    FlowState C P R :=
  { st with
    mem := Scatter.apply st.mem (cellWrite lim (st.fifo core)
      ((st.chan.held core).getD cur 0) cur)
    wrote := Function.update st.wrote core (insert cur (st.wrote core)) }

/-- The first `part` bytes of the write, after which the DMA fails. -/
def scatterFail (st : FlowState C P R) (lim : DmaLimits) (core : C)
    (cur part : Nat) : FlowState C P R :=
  let write := cellWrite lim (st.fifo core) ((st.chan.held core).getD cur 0) cur
  { st with
    mem := Scatter.apply st.mem ⟨write.addr, write.items.take part⟩
    wrote := Function.update st.wrote core ((st.wrote core).erase cur) }

def availPublish (st : FlowState C P R) (core : C) (len : Nat)
    (got : List Nat) : FlowState C P R :=
  { st with
    chan := st.chan.availPublish core len got
    wrote := Function.update st.wrote core ∅ }

def complPublish (st : FlowState C P R) (core : C) : FlowState C P R :=
  { st with
    chan := st.chan.complPublish core
    fifo := Function.update st.fifo core { st.fifo core with
      localRidx := add64 (st.fifo core).localRidx
        (st.chan.held core).length }
    queue := Function.update st.queue core
      ((st.queue core).drop (st.chan.held core).length)
    posted := st.posted ++
      ((st.queue core).take (st.chan.held core).length).mapIdx
        fun cur packet => ⟨core, packet, cur ∈ st.wrote core⟩ }

def hostReturn (st : FlowState C P R) (addr : Nat) (ring : RingBuff)
    (result : Option R) : FlowState C P R :=
  { st with
    chan := st.chan.hostReturn addr ring
    got := none
    received := st.received ++ [result] }

end FlowState

/-- One step.  A core takes blocks for packets that are in its fifo, and
completes all of them, whichever of its writes have succeeded; the host reads
the one block that it has taken before it returns it.  A write to a block may
fail; the copies of the rings and of their indexes succeed. -/
inductive FlowStep (lim : DmaLimits) (format : ChanFormat P R) :
    FlowState C P R → FlowState C P R → Prop
  | add {st : FlowState C P R} (core : C) (packet : P) {next : SimpleFifo}
      (hadd : format.add lim (st.fifo core) packet = (.success, next)) :
      FlowStep lim format st (st.add core packet next)
  | availBegin {st : FlowState C P R} (core : C) {len : Nat}
      (hlock : st.chan.availOp = .free) (hheld : st.chan.held core = [])
      (hcore : st.chan.complOp.core ≠ some core) (hlen : len ≤ lim.chanPostLwm)
      (hnum : len ≤ (st.fifo core).localNum) :
      FlowStep lim format st { st with chan := st.chan.availBegin core len }
  | availCopyFirst {st : FlowState C P R} {core : C} {len : Nat}
      (hop : st.chan.availOp = .first core len) :
      FlowStep lim format st
        { st with chan := st.chan.availCopyFirst core len }
  | availCopySecond {st : FlowState C P R} {core : C} {len : Nat}
      {got : List Nat} (hop : st.chan.availOp = .second core len got) :
      FlowStep lim format st
        { st with chan := st.chan.availCopySecond core len got }
  | availPublish {st : FlowState C P R} {core : C} {len : Nat} {got : List Nat}
      (hop : st.chan.availOp = .publish core len got) :
      FlowStep lim format st (st.availPublish core len got)
  | scatter {st : FlowState C P R} (core : C) {cur : Nat}
      (hcur : cur < (st.chan.held core).length)
      (hcore : st.chan.complOp.core ≠ some core) :
      FlowStep lim format st (st.scatter lim core cur)
  | scatterFail {st : FlowState C P R} (core : C) {cur : Nat} (part : Nat)
      (hcur : cur < (st.chan.held core).length)
      (hcore : st.chan.complOp.core ≠ some core) :
      FlowStep lim format st (st.scatterFail lim core cur part)
  | complBegin {st : FlowState C P R} (core : C)
      (hlock : st.chan.complOp = .free)
      (hcore : st.chan.availOp.core ≠ some core) :
      FlowStep lim format st { st with chan := st.chan.complBegin core }
  | complCopyFirst {st : FlowState C P R} {core : C}
      (hop : st.chan.complOp = .first core) :
      FlowStep lim format st { st with chan := st.chan.complCopyFirst core }
  | complCopySecond {st : FlowState C P R} {core : C}
      (hop : st.chan.complOp = .second core) :
      FlowStep lim format st { st with chan := st.chan.complCopySecond core }
  | complPublish {st : FlowState C P R} {core : C}
      (hop : st.chan.complOp = .publish core) :
      FlowStep lim format st (st.complPublish core)
  | hostTake {st : FlowState C P R} {addr : Nat} {ring : RingBuff}
      (hidle : st.chan.host = [])
      (hget : st.chan.chan.compl.get = some (addr, ring)) :
      FlowStep lim format st { st with chan := st.chan.hostTake addr ring }
  | hostRead {st : FlowState C P R} {addr : Nat}
      (hhost : st.chan.host = [addr]) :
      FlowStep lim format st { st with got := some (format.get st.mem addr) }
  | hostReturn {st : FlowState C P R} {addr : Nat} {ring : RingBuff}
      {result : Option R} (hhost : st.chan.host = [addr])
      (hgot : st.got = some result)
      (hput : st.chan.chan.avail.put addr = some ring) :
      FlowStep lim format st (st.hostReturn addr ring result)

/-- Every state that some order of steps leads to. -/
inductive FlowReachable (lim : DmaLimits) (format : ChanFormat P R)
    (start : FlowState C P R) : FlowState C P R → Prop
  | start : FlowReachable lim format start start
  | step {st st' : FlowState C P R} (h : FlowReachable lim format start st)
      (hstep : FlowStep lim format st st') :
      FlowReachable lim format start st'

/-- The start: the driver has filled the available ring, and all fifos are
empty. -/
def FlowState.start (C P R : Type) (avail : RingBuff) (mem : Nat → UInt8)
    (cell : FifoCell) : FlowState C P R where
  chan := .start C avail
  mem := mem
  fifo := fun _ => ⟨0, 0, fun _ => cell⟩
  wrote := fun _ => ∅
  got := none
  queue := fun _ => []
  sent := fun _ => []
  posted := []
  received := []

end Steps

end Barley
