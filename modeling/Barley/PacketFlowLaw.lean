/-
What reaches the host.  In every order of the steps of the cores, of the DMA
engine and of the host, the host reads one result for each packet, those of a
core in the order in which it accepted them, and every packet that was written
to its block as it was.
-/
import Barley.PacketFlow

namespace Barley

/-- Blocks that lie apart from each other and below the end of the address
space. -/
structure BlocksApart (blocks : List Nat) : Prop where
  apart : blocks.Pairwise fun first second =>
    first + frcDmaSimplePackageBlockSize ≤ second ∨
      second + frcDmaSimplePackageBlockSize ≤ first
  below : ∀ addr ∈ blocks, addr + frcDmaSimplePackageBlockSize ≤ 2 ^ 64

/-- The core and the number of blocks that a call of `avail_get` is about. -/
def AvailOp.request {C : Type} : AvailOp C → Option (C × Nat)
  | .free => none
  | .first core len => some (core, len)
  | .second core len _ => some (core, len)
  | .publish core len _ => some (core, len)

/-- The cell of a packet. -/
def ChanFormat.cell {P R : Type} (format : ChanFormat P R) (packet : P) :
    FifoCell :=
  ⟨(format.frame packet).length, format.frame packet⟩

/-- The block holds the packet. -/
def ChanFormat.Holds {P R : Type} (format : ChanFormat P R)
    (mem : Nat → UInt8) (addr : Nat) (packet : P) : Prop :=
  Ring.read mem (addr + frcDmaOffset) (format.frame packet).length =
    format.frame packet

section Blocks

variable {blocks : List Nat} {first second : Nat}

theorem BlocksApart.nodup (h : BlocksApart blocks) : blocks.Nodup := by
  refine h.apart.imp fun hapart => ?_
  rintro rfl
  simp only [frcDmaSimplePackageBlockSize] at hapart
  omega

theorem BlocksApart.of_ne (h : BlocksApart blocks) (hfirst : first ∈ blocks)
    (hsecond : second ∈ blocks) (hne : first ≠ second) :
    first + frcDmaSimplePackageBlockSize ≤ second ∨
      second + frcDmaSimplePackageBlockSize ≤ first := by
  have hsymm : Std.Symm fun first second =>
      first + frcDmaSimplePackageBlockSize ≤ second ∨
        second + frcDmaSimplePackageBlockSize ≤ first :=
    ⟨fun _ _ => Or.symm⟩
  exact h.apart.forall hfirst hsecond hne

end Blocks

section Places

variable {C : Type} [Fintype C] [DecidableEq C] {blocks : List Nat}
  {s : ChanState C} {core other : C} {addr : Nat}

omit [DecidableEq C] in
theorem ChanState.mem_of_held (h : ChanInv blocks s)
    (hblocks : blocks.length = frcSimpleRingBuffSize)
    (hfew : s.transfers < 2 ^ 64) (hheld : addr ∈ s.held core) :
    addr ∈ blocks := by
  have hcount := h.count_eq hblocks hfew addr
  have hone := Finset.single_le_sum (fun c _ => Nat.zero_le _)
    (f := fun c => (s.held c).count addr) (Finset.mem_univ core)
  have hpos := List.count_pos_iff.mpr hheld
  exact List.count_pos_iff.mp (by omega)

/-- A block that a core holds is with no other core, and in one copy. -/
theorem ChanState.held_once (h : ChanInv blocks s)
    (hblocks : blocks.length = frcSimpleRingBuffSize) (hnodup : blocks.Nodup)
    (hfew : s.transfers < 2 ^ 64) (hheld : addr ∈ s.held core) :
    (s.held core).count addr = 1 ∧
      (∀ other, other ≠ core → addr ∉ s.held other) ∧
      addr ∉ s.chan.compl.unread ∧ addr ∉ s.host := by
  have hcount := h.count_eq hblocks hfew addr
  have hle := List.nodup_iff_count_le_one.mp hnodup addr
  have hpos := List.count_pos_iff.mpr hheld
  have hsplit := Finset.add_sum_erase Finset.univ
    (fun c => (s.held c).count addr) (Finset.mem_univ core)
  refine ⟨by omega, fun other hne hother => ?_, fun hring => ?_,
    fun hhost => ?_⟩
  · have hmore := Finset.single_le_sum (fun c _ => Nat.zero_le _)
      (f := fun c => (s.held c).count addr)
      (Finset.mem_erase.mpr ⟨hne, Finset.mem_univ other⟩)
    have hpos' := List.count_pos_iff.mpr hother
    omega
  · have hpos' := List.count_pos_iff.mpr hring
    omega
  · have hpos' := List.count_pos_iff.mpr hhost
    omega

/-- Blocks at different places of what cores hold are different. -/
theorem ChanState.held_ne (h : ChanInv blocks s)
    (hblocks : blocks.length = frcSimpleRingBuffSize) (hnodup : blocks.Nodup)
    (hfew : s.transfers < 2 ^ 64) {cur cur' : Nat}
    (hcur : cur < (s.held core).length) (hcur' : cur' < (s.held other).length)
    (hne : (core, cur) ≠ (other, cur')) :
    (s.held core)[cur] ≠ (s.held other)[cur'] := by
  intro heq
  by_cases hcore : other = core
  · subst hcore
    have hheldNodup : (s.held other).Nodup := by
      refine List.nodup_iff_count_le_one.mpr fun addr => ?_
      by_cases hmem : addr ∈ s.held other
      · exact Nat.le_of_eq (ChanState.held_once h hblocks hnodup hfew hmem).1
      · rw [List.count_eq_zero_of_not_mem hmem]
        exact Nat.zero_le 1
    exact hne (by rw [(hheldNodup.getElem_inj_iff).mp heq])
  · have honce := ChanState.held_once h hblocks hnodup hfew
      (List.getElem_mem hcur)
    exact honce.2.1 other hcore (heq ▸ List.getElem_mem hcur')

end Places

section Memory

variable {P R : Type} {format : ChanFormat P R} {blocks : List Nat}
  {mem : Nat → UInt8} {addr other : Nat} {packet : P}

/-- What is written to a block leaves the packets of other blocks alone. -/
theorem ChanFormat.Holds.apply (h : format.Holds mem addr packet)
    (hlawful : format.Lawful) (hblocks : BlocksApart blocks)
    (haddr : addr ∈ blocks) (hother : other ∈ blocks) (hne : addr ≠ other)
    {items : List UInt8} (hitems : items.length ≤ frcDmaSimplePackageDataSize) :
    format.Holds (Scatter.apply mem ⟨other + frcDmaOffset, items⟩) addr
      packet := by
  have hapart := hblocks.of_ne haddr hother hne
  have hfits := hlawful.fits packet
  have hsize : frcDmaSimplePackageDataSize + frcDmaOffset =
      frcDmaSimplePackageBlockSize := rfl
  refine (Scatter.read_apply_apart mem ?_).trans h
  simp only [Scatter.Write.stop]
  omega

theorem ChanFormat.holds_apply (mem : Nat → UInt8) (addr : Nat) (packet : P) :
    format.Holds (Scatter.apply mem
      ⟨addr + frcDmaOffset, format.frame packet⟩) addr packet :=
  Scatter.read_apply mem ⟨addr + frcDmaOffset, format.frame packet⟩

end Memory

variable {C P R : Type} [Fintype C] [DecidableEq C]

/-- The host has taken no block, or the one it has taken is the next one, and
what it has read of it is the packet if that was written. -/
inductive Reader (format : ChanFormat P R) (st : FlowState C P R) : Prop where
  | idle (hhost : st.chan.host = []) (hgot : st.got = none)
      (hlength : st.received.length = st.chan.complOut.length)
  | busy (addr : Nat) (hhost : st.chan.host = [addr])
      (hlength : st.received.length + 1 = st.chan.complOut.length)
      (haddr : st.chan.complIn[st.received.length]? = some addr)
      (hgot : ∀ result, st.got = some result →
        ∃ entry, st.posted[st.received.length]? = some entry ∧
          (entry.written → result = some (format.received entry.packet)))

/-- What the host has read is the packet, wherever that was written. -/
def FlowState.ReadsWritten (format : ChanFormat P R) (st : FlowState C P R) :
    Prop :=
  ∀ (k : Nat) (entry : Posted C P) (result : Option R),
    st.posted[k]? = some entry → st.received[k]? = some result →
      entry.written → result = some (format.received entry.packet)

/-- Each block that has been completed has its packet. -/
def FlowState.AllWritten (st : FlowState C P R) : Prop :=
  ∀ entry ∈ st.posted, entry.written

/-- What every step keeps. -/
structure FlowInv (lim : DmaLimits) (format : ChanFormat P R)
    (blocks : List Nat) (st : FlowState C P R) : Prop where
  chan : ChanInv blocks st.chan
  fifo : ∀ core, FifoLog lim (st.fifo core) ((st.queue core).map format.cell)
    (st.sent core).length
  sent : ∀ core, (st.posted.filter fun entry => entry.core = core).map
    Posted.packet ++ st.queue core = st.sent core
  length : st.posted.length = st.chan.complIn.length
  asked : ∀ core len, st.chan.availOp.request = some (core, len) →
    len ≤ (st.queue core).length
  held : ∀ core, (st.chan.held core).length ≤ (st.queue core).length
  written : ∀ core, ∀ cur ∈ st.wrote core, ∀ addr packet,
    (st.chan.held core)[cur]? = some addr →
      (st.queue core)[cur]? = some packet → format.Holds st.mem addr packet
  inRing : ∀ k addr (entry : Posted C P), st.received.length ≤ k →
    st.chan.complIn[k]? = some addr → st.posted[k]? = some entry →
      entry.written → format.Holds st.mem addr entry.packet
  reader : Reader format st
  delivered : st.ReadsWritten format

/-- No counter has run over. -/
structure FlowState.Few (st : FlowState C P R) : Prop where
  transfers : st.chan.transfers < 2 ^ 64
  sent : ∀ core, (st.sent core).length < 2 ^ 64

section Steps

variable {lim : DmaLimits} {format : ChanFormat P R} {blocks : List Nat}
  {st : FlowState C P R}

/-- A step of the channel that moves no block. -/
theorem FlowInv.quiet (h : FlowInv lim format blocks st) {chan : ChanState C}
    (hchan : ChanInv blocks chan) (hheld : chan.held = st.chan.held)
    (hhost : chan.host = st.chan.host)
    (hin : chan.complIn = st.chan.complIn)
    (hout : chan.complOut = st.chan.complOut)
    (hasked : ∀ core len, chan.availOp.request = some (core, len) →
      len ≤ (st.queue core).length) :
    FlowInv lim format blocks { st with chan := chan } where
  chan := hchan
  fifo := h.fifo
  sent := h.sent
  length := by rw [hin]; exact h.length
  asked := hasked
  held := by rw [hheld]; exact h.held
  written := by rw [hheld]; exact h.written
  inRing := by rw [hin]; exact h.inRing
  reader := by
    cases h.reader with
    | idle hidle hgot hlength =>
        exact .idle (hhost.trans hidle) hgot (hout ▸ hlength)
    | busy addr hbusy hlength haddr hgot =>
        exact .busy addr (hhost.trans hbusy) (hout ▸ hlength) (hin ▸ haddr)
          hgot
  delivered := h.delivered

theorem FlowInv.add (h : FlowInv lim format blocks st)
    (hlawful : format.Lawful) {core : C} {packet : P} {next : SimpleFifo}
    (hadd : format.add lim (st.fifo core) packet = (.success, next))
    (hfew : (st.add core packet next).Few) :
    FlowInv lim format blocks (st.add core packet next) := by
  obtain ⟨hdr, info, payload, hcall, hframe⟩ :=
    hlawful.add_eq lim (st.fifo core) packet
  rw [hcall] at hadd
  have hsent := hfew.sent core
  simp only [FlowState.add, Function.update_self, List.length_append,
    List.length_singleton] at hsent
  have hnext := (h.fifo core).add hsent hadd
  rw [← hframe] at hnext
  -- the queue of a core only grows at its end
  have hgrows : ∀ c cur item, (Function.update st.queue core
      (st.queue core ++ [packet]) c)[cur]? = some item →
        cur < (st.queue c).length → (st.queue c)[cur]? = some item := by
    intro c cur item hitem hcur
    rw [Function.update_apply] at hitem
    split at hitem
    · rename_i heq
      subst heq
      rw [List.getElem?_append_left hcur] at hitem
      exact hitem
    · exact hitem
  have hlonger : ∀ c, (st.queue c).length ≤
      (Function.update st.queue core (st.queue core ++ [packet]) c).length := by
    intro c
    rw [Function.update_apply]
    split
    · rename_i heq
      rw [heq, List.length_append]
      exact Nat.le_add_right _ _
    · exact Nat.le_refl _
  refine { h with fifo := ?_, sent := ?_, asked := ?_, held := ?_,
                  written := ?_, reader := ?_ }
  · intro c
    simp only [FlowState.add]
    by_cases heq : c = core
    · subst heq
      rw [Function.update_self, Function.update_self, Function.update_self,
        List.map_append, List.length_append]
      exact hnext
    · rw [Function.update_of_ne heq, Function.update_of_ne heq,
        Function.update_of_ne heq]
      exact h.fifo c
  · intro c
    simp only [FlowState.add]
    by_cases heq : c = core
    · subst heq
      rw [Function.update_self, Function.update_self, ← h.sent,
        List.append_assoc]
    · rw [Function.update_of_ne heq, Function.update_of_ne heq]
      exact h.sent c
  · intro c len hrequest
    exact Nat.le_trans (h.asked c len hrequest) (hlonger c)
  · intro c
    exact Nat.le_trans (h.held c) (hlonger c)
  · intro c cur hcur addr item haddr hitem
    have hlt : cur < (st.chan.held c).length := by
      obtain ⟨hlt, -⟩ := List.getElem?_eq_some_iff.mp haddr
      exact hlt
    exact h.written c cur hcur addr item haddr
      (hgrows c cur item hitem (Nat.lt_of_lt_of_le hlt (h.held c)))
  · cases h.reader with
    | idle hidle hgot hlength => exact .idle hidle hgot hlength
    | busy addr hbusy hlength haddr hgot =>
        exact .busy addr hbusy hlength haddr hgot

/-- A step of the channel's protocol. -/
theorem FlowInv.chanStep (h : FlowInv lim format blocks st)
    (hblocks : blocks.length = frcSimpleRingBuffSize) {chan : ChanState C}
    (hstep : ChanStep lim.chanPostLwm st.chan chan)
    (hfew : chan.transfers < 2 ^ 64) : ChanInv blocks chan :=
  h.chan.step hblocks hstep hfew

theorem FlowInv.availBegin (h : FlowInv lim format blocks st)
    (hblocks : blocks.length = frcSimpleRingBuffSize) {core : C} {len : Nat}
    (hlock : st.chan.availOp = .free) (hheld : st.chan.held core = [])
    (hcore : st.chan.complOp.core ≠ some core) (hlen : len ≤ lim.chanPostLwm)
    (hnum : len ≤ (st.fifo core).localNum) (hfew : st.Few) :
    FlowInv lim format blocks
      { st with chan := st.chan.availBegin core len } := by
  have hqueue : len ≤ (st.queue core).length := by
    rw [(h.fifo core).localNum_eq (hfew.sent core), List.length_map] at hnum
    exact hnum
  refine h.quiet (h.chanStep hblocks (.availBegin core hlock hheld hcore hlen)
    hfew.transfers) rfl rfl rfl rfl ?_
  intro other len' hrequest
  simp only [ChanState.availBegin] at hrequest
  split at hrequest
  · cases hrequest
  · cases hrequest
    exact hqueue

theorem FlowInv.availCopyFirst (h : FlowInv lim format blocks st)
    (hblocks : blocks.length = frcSimpleRingBuffSize) {core : C} {len : Nat}
    (hop : st.chan.availOp = .first core len) (hfew : st.Few) :
    FlowInv lim format blocks
      { st with chan := st.chan.availCopyFirst core len } := by
  have hasked := h.asked core len (by rw [hop]; rfl)
  refine h.quiet (h.chanStep hblocks (.availCopyFirst hop) hfew.transfers)
    rfl rfl rfl rfl ?_
  intro other len' hrequest
  simp only [ChanState.availCopyFirst] at hrequest
  split at hrequest
  · cases hrequest
    exact hasked
  · cases hrequest
    exact hasked

theorem FlowInv.availCopySecond (h : FlowInv lim format blocks st)
    (hblocks : blocks.length = frcSimpleRingBuffSize) {core : C} {len : Nat}
    {got : List Nat} (hop : st.chan.availOp = .second core len got)
    (hfew : st.Few) :
    FlowInv lim format blocks
      { st with chan := st.chan.availCopySecond core len got } := by
  have hasked := h.asked core len (by rw [hop]; rfl)
  refine h.quiet (h.chanStep hblocks (.availCopySecond hop) hfew.transfers)
    rfl rfl rfl rfl ?_
  intro other len' hrequest
  cases hrequest
  exact hasked

theorem FlowInv.complBegin (h : FlowInv lim format blocks st)
    (hblocks : blocks.length = frcSimpleRingBuffSize) {core : C}
    (hlock : st.chan.complOp = .free)
    (hcore : st.chan.availOp.core ≠ some core) (hfew : st.Few) :
    FlowInv lim format blocks { st with chan := st.chan.complBegin core } :=
  h.quiet (h.chanStep hblocks (.complBegin core hlock hcore) hfew.transfers)
    rfl rfl rfl rfl h.asked

theorem FlowInv.complCopyFirst (h : FlowInv lim format blocks st)
    (hblocks : blocks.length = frcSimpleRingBuffSize) {core : C}
    (hop : st.chan.complOp = .first core) (hfew : st.Few) :
    FlowInv lim format blocks
      { st with chan := st.chan.complCopyFirst core } :=
  h.quiet (h.chanStep hblocks (.complCopyFirst hop) hfew.transfers)
    rfl rfl rfl rfl h.asked

theorem FlowInv.complCopySecond (h : FlowInv lim format blocks st)
    (hblocks : blocks.length = frcSimpleRingBuffSize) {core : C}
    (hop : st.chan.complOp = .second core) (hfew : st.Few) :
    FlowInv lim format blocks
      { st with chan := st.chan.complCopySecond core } :=
  h.quiet (h.chanStep hblocks (.complCopySecond hop) hfew.transfers)
    rfl rfl rfl rfl h.asked

/-- A core that gets blocks has a packet for each of them. -/
theorem FlowInv.availPublish (h : FlowInv lim format blocks st)
    (hblocks : blocks.length = frcSimpleRingBuffSize) {core : C} {len : Nat}
    {got : List Nat} (hop : st.chan.availOp = .publish core len got)
    (hfew : (st.availPublish core len got).Few) :
    FlowInv lim format blocks (st.availPublish core len got) := by
  have hasked := h.asked core len (by rw [hop]; rfl)
  have hgot : got.length = len := by
    have hok := h.chan.availOp
    rw [hop] at hok
    cases hok with
    | publish hlen => exact Ring.length_window ..
  refine { h with chan := h.chanStep hblocks (.availPublish hop) hfew.transfers,
                  asked := ?_, held := ?_, written := ?_, reader := ?_ }
  · intro other len' hrequest
    cases hrequest
  · intro other
    simp only [FlowState.availPublish, ChanState.availPublish]
    by_cases heq : other = core
    · subst heq
      rw [Function.update_self, hgot]
      exact hasked
    · rw [Function.update_of_ne heq]
      exact h.held other
  · intro other cur hcur addr packet haddr hpacket
    simp only [FlowState.availPublish, ChanState.availPublish] at *
    by_cases heq : other = core
    · subst heq
      rw [Function.update_self] at hcur
      cases hcur
    · rw [Function.update_of_ne heq] at hcur haddr
      exact h.written other cur hcur addr packet haddr hpacket
  · cases h.reader with
    | idle hidle hnone hlength => exact .idle hidle hnone hlength
    | busy addr hbusy hlength haddr hread =>
        exact .busy addr hbusy hlength haddr hread

/-- The write of a core is that of its packet. -/
theorem FlowInv.cellWrite_eq (h : FlowInv lim format blocks st)
    (hblocks : blocks.length = frcSimpleRingBuffSize)
    (hapart : BlocksApart blocks) {core : C} {cur addr : Nat} {packet : P}
    (haddr : (st.chan.held core)[cur]? = some addr)
    (hpacket : (st.queue core)[cur]? = some packet) (hfew : st.Few) :
    FlowState.cellWrite lim (st.fifo core)
        ((st.chan.held core).getD cur 0) cur =
      ⟨addr + frcDmaOffset, format.frame packet⟩ := by
  obtain ⟨hcur, hget⟩ := List.getElem?_eq_some_iff.mp hpacket
  have hmem := ChanState.mem_of_held h.chan hblocks hfew.transfers
    (List.mem_of_getElem? haddr)
  have hbelow := hapart.below addr hmem
  have hcell := (h.fifo core).cell_eq (hfew.sent core)
    (by rw [List.length_map]; exact hcur : cur < _)
  rw [List.getElem_map, hget] at hcell
  have hdest : add64 addr frcDmaOffset = addr + frcDmaOffset := by
    apply add64_eq
    simp only [frcDmaOffset, frcDmaSimplePackageBlockSize] at hbelow ⊢
    omega
  simp only [FlowState.cellWrite, SimpleFifo.entry, List.getD_eq_getElem?_getD,
    haddr, Option.getD_some, hcell, hdest, ChanFormat.cell, List.take_length]

/-- A block that the host has yet to return is in the completed ring or with
the host. -/
theorem FlowInv.unreturned (h : FlowInv lim format blocks st) {k addr : Nat}
    (hk : st.received.length ≤ k) (haddr : st.chan.complIn[k]? = some addr)
    (hfew : st.Few) : addr ∈ st.chan.chan.compl.unread ∨ addr ∈ st.chan.host := by
  have hentered := h.chan.complLog.entered_eq
    (ChanState.complIn_lt hfew.transfers)
  have hunread : st.chan.complOut.length ≤ k →
      addr ∈ st.chan.chan.compl.unread := by
    intro hle
    rw [hentered, List.getElem?_append_right hle] at haddr
    exact List.mem_of_getElem? haddr
  cases h.reader with
  | idle hidle hgot hlength => exact .inl (hunread (hlength ▸ hk))
  | busy last hbusy hlength hlast hgot =>
      rcases Nat.eq_or_lt_of_le hk with heq | hlt
      · rw [← heq, hlast, Option.some_inj] at haddr
        rw [hbusy, haddr]
        exact .inr (List.mem_singleton_self addr)
      · exact .inl (hunread (by omega))

/-- A packet of which the host has yet to return the block is in a block that no
core holds. -/
theorem FlowInv.unheld (h : FlowInv lim format blocks st)
    (hblocks : blocks.length = frcSimpleRingBuffSize)
    (hapart : BlocksApart blocks) {k addr dest : Nat} {core : C}
    (hk : st.received.length ≤ k) (haddr : st.chan.complIn[k]? = some addr)
    (hdest : dest ∈ st.chan.held core) (hfew : st.Few) :
    addr ∈ blocks ∧ addr ≠ dest := by
  have hplace := h.unreturned hk haddr hfew
  have honce := ChanState.held_once h.chan hblocks hapart.nodup hfew.transfers
    hdest
  refine ⟨?_, ?_⟩
  · have hcount := h.chan.count_eq hblocks hfew.transfers addr
    apply List.count_pos_iff.mp
    rcases hplace with hring | hhost
    · have hpos := List.count_pos_iff.mpr hring
      omega
    · have hpos := List.count_pos_iff.mpr hhost
      omega
  · rintro rfl
    rcases hplace with hring | hhost
    · exact honce.2.2.1 hring
    · exact honce.2.2.2 hhost

/-- A write to the block at a place of a core, which may stop before its end:
the packets in all other blocks stay as they are. -/
theorem FlowInv.write (h : FlowInv lim format blocks st)
    (hlawful : format.Lawful)
    (hblocks : blocks.length = frcSimpleRingBuffSize)
    (hapart : BlocksApart blocks) {core : C} {cur dest : Nat}
    (hdest : (st.chan.held core)[cur]? = some dest) {items : List UInt8}
    (hitems : items.length ≤ frcDmaSimplePackageDataSize)
    {wrote : Finset Nat}
    (hothers : ∀ cur', cur' ≠ cur → cur' ∈ wrote → cur' ∈ st.wrote core)
    (hself : cur ∈ wrote → ∀ packet, (st.queue core)[cur]? = some packet →
      items = format.frame packet)
    (hfew : st.Few) :
    FlowInv lim format blocks { st with
      mem := Scatter.apply st.mem ⟨dest + frcDmaOffset, items⟩
      wrote := Function.update st.wrote core wrote } := by
  have hheld := List.mem_of_getElem? hdest
  have hmem := ChanState.mem_of_held h.chan hblocks hfew.transfers hheld
  have hkeeps : ∀ addr packet, addr ∈ blocks → addr ≠ dest →
      format.Holds st.mem addr packet →
        format.Holds (Scatter.apply st.mem ⟨dest + frcDmaOffset, items⟩) addr
          packet := fun addr packet haddr hne hholds =>
    hholds.apply hlawful hapart haddr hmem hne hitems
  refine { h with written := ?_, inRing := ?_, reader := ?_ }
  · intro other cur' hcur' addr packet haddr hpacket
    by_cases hsame : (core, cur) = (other, cur')
    · cases hsame
      obtain rfl : dest = addr := Option.some_inj.mp (hdest.symm.trans haddr)
      simp only [Function.update_self] at hcur'
      rw [hself hcur' packet hpacket]
      exact format.holds_apply st.mem dest packet
    · obtain ⟨hlt, rfl⟩ := List.getElem?_eq_some_iff.mp haddr
      obtain ⟨hlt', rfl⟩ := List.getElem?_eq_some_iff.mp hdest
      have hne := ChanState.held_ne h.chan hblocks hapart.nodup hfew.transfers
        hlt' hlt hsame
      refine hkeeps _ packet (ChanState.mem_of_held h.chan hblocks
        hfew.transfers (List.getElem_mem hlt)) (Ne.symm hne) ?_
      refine h.written other cur' ?_ _ packet haddr hpacket
      simp only [Function.update_apply] at hcur'
      split at hcur'
      · rename_i heq
        subst heq
        refine hothers cur' ?_ hcur'
        rintro rfl
        exact hsame rfl
      · exact hcur'
  · intro k addr entry hk haddr hentry hwritten
    obtain ⟨hblock, hne⟩ := h.unheld hblocks hapart hk haddr hheld hfew
    exact hkeeps addr entry.packet hblock hne
      (h.inRing k addr entry hk haddr hentry hwritten)
  · cases h.reader with
    | idle hidle hnone hlength => exact .idle hidle hnone hlength
    | busy addr hbusy hlength haddr hread =>
        exact .busy addr hbusy hlength haddr hread

/-- The block and the packet at a place of a core. -/
theorem FlowInv.place (h : FlowInv lim format blocks st) {core : C} {cur : Nat}
    (hcur : cur < (st.chan.held core).length) :
    ∃ dest packet, (st.chan.held core)[cur]? = some dest ∧
      (st.queue core)[cur]? = some packet :=
  ⟨_, _, List.getElem?_eq_getElem hcur,
    List.getElem?_eq_getElem (Nat.lt_of_lt_of_le hcur (h.held core))⟩

theorem FlowInv.scatter (h : FlowInv lim format blocks st)
    (hlawful : format.Lawful)
    (hblocks : blocks.length = frcSimpleRingBuffSize)
    (hapart : BlocksApart blocks) {core : C} {cur : Nat}
    (hcur : cur < (st.chan.held core).length) (hfew : st.Few) :
    FlowInv lim format blocks (st.scatter lim core cur) := by
  obtain ⟨dest, packet, hdest, hpacket⟩ := h.place hcur
  have hwrite := h.cellWrite_eq hblocks hapart hdest hpacket hfew
  rw [FlowState.scatter, hwrite]
  refine h.write hlawful hblocks hapart hdest (hlawful.fits packet)
    (fun _ hne hmem => Finset.mem_of_mem_insert_of_ne hmem hne) ?_ hfew
  intro _ other hother
  rw [Option.some_inj.mp (hpacket.symm.trans hother)]

/-- A write that fails leaves the block without a packet. -/
theorem FlowInv.scatterFail (h : FlowInv lim format blocks st)
    (hlawful : format.Lawful)
    (hblocks : blocks.length = frcSimpleRingBuffSize)
    (hapart : BlocksApart blocks) {core : C} {cur : Nat} (part : Nat)
    (hcur : cur < (st.chan.held core).length) (hfew : st.Few) :
    FlowInv lim format blocks (st.scatterFail lim core cur part) := by
  obtain ⟨dest, packet, hdest, hpacket⟩ := h.place hcur
  have hwrite := h.cellWrite_eq hblocks hapart hdest hpacket hfew
  have hlength : ((format.frame packet).take part).length ≤
      frcDmaSimplePackageDataSize := by
    rw [List.length_take]
    exact Nat.le_trans (Nat.min_le_right _ _) (hlawful.fits packet)
  rw [FlowState.scatterFail, hwrite]
  refine h.write hlawful hblocks hapart hdest hlength
    (fun cur' _ => Finset.mem_of_mem_erase) ?_ hfew
  intro hmem
  exact absurd hmem (Finset.notMem_erase cur _)

/-- The host has taken no more than what has been completed. -/
theorem FlowInv.received_le (h : FlowInv lim format blocks st) :
    st.received.length ≤ st.posted.length := by
  have hle := h.chan.complLog.le
  have hlength := h.length
  cases h.reader with
  | idle hidle hgot hreceived => omega
  | busy addr hbusy hreceived haddr hgot => omega

omit [Fintype C] in
/-- What a core completes are its own packets. -/
theorem filter_posted (core other : C) (packets : List P)
    (written : Nat → Bool) :
    ((packets.mapIdx fun cur packet =>
        (⟨core, packet, written cur⟩ : Posted C P)).filter
          fun entry => entry.core = other).map Posted.packet =
      if other = core then packets else [] := by
  split
  · rename_i heq
    subst heq
    rw [List.filter_eq_self.mpr]
    · apply List.ext_getElem?
      intro k
      rw [List.getElem?_map, List.getElem?_mapIdx, Option.map_map]
      exact Option.map_id'
    · intro entry hentry
      obtain ⟨cur, hcur, rfl⟩ := List.mem_mapIdx.mp hentry
      exact decide_eq_true rfl
  · rw [List.filter_eq_nil_iff.mpr, List.map_nil]
    intro entry hentry
    obtain ⟨cur, hcur, rfl⟩ := List.mem_mapIdx.mp hentry
    simpa using Ne.symm ‹_›

/-- The packets of a core go to the host with its blocks. -/
theorem FlowInv.complPublish (h : FlowInv lim format blocks st)
    (hblocks : blocks.length = frcSimpleRingBuffSize) {core : C}
    (hop : st.chan.complOp = .publish core)
    (hfew : (st.complPublish core).Few) :
    FlowInv lim format blocks (st.complPublish core) := by
  have hheld := h.held core
  have htake : ((st.queue core).take (st.chan.held core).length).length =
      (st.chan.held core).length := List.length_take_of_le hheld
  have hreceived := h.received_le
  have hlength := h.length
  refine {
    chan := h.chanStep hblocks (.complPublish hop) hfew.transfers
    fifo := ?_, sent := ?_, length := ?_, asked := ?_, held := ?_
    written := ?_, inRing := ?_, reader := ?_, delivered := ?_ }
  · intro other
    simp only [FlowState.complPublish]
    by_cases heq : other = core
    · subst heq
      rw [Function.update_self, Function.update_self, List.map_drop]
      exact (h.fifo other).leave (hfew.sent other)
        (by rw [List.length_map]; exact hheld)
    · rw [Function.update_of_ne heq, Function.update_of_ne heq]
      exact h.fifo other
  · intro other
    simp only [FlowState.complPublish, List.filter_append, List.map_append,
      filter_posted, Function.update_apply]
    split
    · rename_i heq
      rw [List.append_assoc, List.take_append_drop, ← heq]
      exact h.sent other
    · rw [List.append_nil]
      exact h.sent other
  · simp only [FlowState.complPublish, ChanState.complPublish,
      List.length_append, List.length_mapIdx, htake, hlength]
  · intro other len hrequest
    have hother : st.chan.availOp.core = some other := by
      simp only [FlowState.complPublish, ChanState.complPublish] at hrequest
      cases hcall : st.chan.availOp with
      | free => rw [hcall] at hrequest; cases hrequest
      | first c n => rw [hcall] at hrequest; cases hrequest; rfl
      | second c n got => rw [hcall] at hrequest; cases hrequest; rfl
      | publish c n got => rw [hcall] at hrequest; cases hrequest; rfl
    have hne : other ≠ core := by
      rintro rfl
      exact (h.chan.exclusive other hother).2 (by rw [hop]; rfl)
    simp only [FlowState.complPublish, Function.update_of_ne hne]
    exact h.asked other len hrequest
  · intro other
    simp only [FlowState.complPublish, ChanState.complPublish]
    by_cases heq : other = core
    · subst heq
      rw [Function.update_self]
      exact Nat.zero_le _
    · rw [Function.update_of_ne heq, Function.update_of_ne heq]
      exact h.held other
  · intro other cur hcur addr packet haddr hpacket
    simp only [FlowState.complPublish, ChanState.complPublish] at *
    by_cases heq : other = core
    · subst heq
      rw [Function.update_self] at haddr
      cases haddr
    · rw [Function.update_of_ne heq] at haddr hpacket
      exact h.written other cur hcur addr packet haddr hpacket
  · intro k addr entry hk haddr hentry hwritten
    simp only [FlowState.complPublish, ChanState.complPublish] at *
    rcases Nat.lt_or_ge k st.chan.complIn.length with hlt | hge
    · rw [List.getElem?_append_left hlt] at haddr
      rw [List.getElem?_append_left (hlength ▸ hlt)] at hentry
      exact h.inRing k addr entry hk haddr hentry hwritten
    · -- the blocks that enter the ring
      rw [List.getElem?_append_right hge] at haddr
      rw [List.getElem?_append_right (hlength ▸ hge), List.getElem?_mapIdx,
        hlength] at hentry
      obtain ⟨hcur, -⟩ := List.getElem?_eq_some_iff.mp haddr
      rw [List.getElem?_take_of_lt hcur] at hentry
      obtain ⟨packet, hpacket, rfl⟩ := Option.map_eq_some_iff.mp hentry
      exact h.written core _ (of_decide_eq_true hwritten) addr packet haddr
        hpacket
  · cases h.reader with
    | idle hidle hnone hcount => exact .idle hidle hnone hcount
    | busy addr hbusy hcount haddr hread =>
        obtain ⟨hlt, -⟩ := List.getElem?_eq_some_iff.mp haddr
        refine .busy addr hbusy hcount ?_ fun result hresult => ?_
        · simp only [FlowState.complPublish, ChanState.complPublish]
          rw [List.getElem?_append_left hlt]
          exact haddr
        · obtain ⟨entry, hposted, hpacket⟩ := hread result hresult
          refine ⟨entry, ?_, hpacket⟩
          simp only [FlowState.complPublish]
          rw [List.getElem?_append_left (hlength ▸ hlt)]
          exact hposted
  · intro k entry result hentry hresult
    obtain ⟨hlt, -⟩ := List.getElem?_eq_some_iff.mp hresult
    simp only [FlowState.complPublish] at hentry hlt
    rw [List.getElem?_append_left (Nat.lt_of_lt_of_le hlt hreceived)] at hentry
    exact h.delivered k entry result hentry hresult

theorem FlowInv.hostTake (h : FlowInv lim format blocks st)
    (hblocks : blocks.length = frcSimpleRingBuffSize) {addr : Nat}
    {ring : RingBuff} (hidle : st.chan.host = [])
    (hget : st.chan.chan.compl.get = some (addr, ring))
    (hfew : FlowState.Few { st with chan := st.chan.hostTake addr ring }) :
    FlowInv lim format blocks
      { st with chan := st.chan.hostTake addr ring } := by
  have hchan := h.chanStep hblocks (.hostTake hget) hfew.transfers
  have hentered := hchan.complLog.entered_eq
    (ChanState.complIn_lt hfew.transfers)
  refine { h with chan := hchan, reader := ?_ }
  cases h.reader with
  | idle _ hnone hlength =>
      refine .busy addr ?_ ?_ ?_ fun result hresult => ?_
      · simp only [ChanState.hostTake, hidle]
      · simp only [ChanState.hostTake, List.length_append,
          List.length_singleton, hlength]
      · rw [hentered]
        simp only [ChanState.hostTake, hlength]
        rw [List.append_assoc, List.getElem?_append_right (Nat.le_refl _),
          Nat.sub_self]
        rfl
      · rw [show st.got = some result from hresult] at hnone
        cases hnone
  | busy last hbusy _ _ _ =>
      rw [hidle] at hbusy
      cases hbusy

/-- The host reads the packet that belongs to the block, if it was written. -/
theorem FlowInv.hostRead (h : FlowInv lim format blocks st)
    (hlawful : format.Lawful) {addr : Nat} (hhost : st.chan.host = [addr]) :
    FlowInv lim format blocks
      { st with got := some (format.get st.mem addr) } := by
  refine { h with reader := ?_ }
  cases h.reader with
  | idle hidle _ _ =>
      rw [hidle] at hhost
      cases hhost
  | busy last hbusy hlength hlast hread =>
      obtain rfl : last = addr := by
        rw [hbusy] at hhost
        exact List.head_eq_of_cons_eq hhost
      refine .busy last hbusy hlength hlast fun result hresult => ?_
      obtain ⟨hlt, -⟩ := List.getElem?_eq_some_iff.mp hlast
      rw [← h.length] at hlt
      obtain ⟨entry, hposted⟩ :
          ∃ entry, st.posted[st.received.length]? = some entry :=
        ⟨_, List.getElem?_eq_getElem hlt⟩
      refine ⟨entry, hposted, fun hwritten => ?_⟩
      have hholds := h.inRing _ last entry (Nat.le_refl _) hlast hposted
        hwritten
      rw [← Option.some_inj.mp hresult]
      exact hlawful.get_frame st.mem last entry.packet hholds

theorem FlowInv.hostReturn (h : FlowInv lim format blocks st)
    (hblocks : blocks.length = frcSimpleRingBuffSize) {addr : Nat}
    {ring : RingBuff} {result : Option R} (hhost : st.chan.host = [addr])
    (hgot : st.got = some result)
    (hput : st.chan.chan.avail.put addr = some ring)
    (hfew : (st.hostReturn addr ring result).Few) :
    FlowInv lim format blocks (st.hostReturn addr ring result) := by
  have hmem : addr ∈ st.chan.host := by
    rw [hhost]
    exact List.mem_singleton_self addr
  cases h.reader with
  | idle hidle _ _ =>
      rw [hidle] at hhost
      cases hhost
  | busy last _ hlength _ hread =>
      obtain ⟨entry, hposted, hpacket⟩ := hread result hgot
      refine { h with
        chan := h.chanStep hblocks (.hostReturn hmem hput) hfew.transfers
        inRing := ?_, reader := ?_, delivered := ?_ }
      · intro k other item hk
        simp only [FlowState.hostReturn, List.length_append] at hk
        exact h.inRing k other item (by omega)
      · refine .idle ?_ rfl ?_
        · simp only [FlowState.hostReturn, ChanState.hostReturn, hhost]
          exact List.erase_cons_head addr []
        · simp only [FlowState.hostReturn, List.length_append,
            List.length_singleton]
          exact hlength
      · intro k item answer hitem hanswer hwritten
        simp only [FlowState.hostReturn] at hitem hanswer
        rcases Nat.lt_or_ge k st.received.length with hlt | hge
        · rw [List.getElem?_append_left hlt] at hanswer
          exact h.delivered k item answer hitem hanswer hwritten
        · -- only the result for the returned block comes behind the others
          obtain ⟨hk, -⟩ := List.getElem?_eq_some_iff.mp hanswer
          rw [List.length_append, List.length_singleton] at hk
          obtain rfl : k = st.received.length := by omega
          rw [List.getElem?_append_right hge, Nat.sub_self] at hanswer
          obtain rfl : result = answer := Option.some_inj.mp hanswer
          obtain rfl : entry = item :=
            Option.some_inj.mp (hposted.symm.trans hitem)
          exact hpacket hwritten

omit [Fintype C] in
/-- A step leaves the channel alone or is a step of its protocol. -/
theorem FlowStep.chanStep {st' : FlowState C P R}
    (hstep : FlowStep lim format st st') :
    st'.chan = st.chan ∨ ChanStep lim.chanPostLwm st.chan st'.chan := by
  cases hstep with
  | add core packet hadd => exact .inl rfl
  | scatter core hcur hcore => exact .inl rfl
  | scatterFail core part hcur hcore => exact .inl rfl
  | hostRead hhost => exact .inl rfl
  | availBegin core hlock hheld hcore hlen hnum =>
      exact .inr (.availBegin core hlock hheld hcore hlen)
  | availCopyFirst hop => exact .inr (.availCopyFirst hop)
  | availCopySecond hop => exact .inr (.availCopySecond hop)
  | availPublish hop => exact .inr (.availPublish hop)
  | complBegin core hlock hcore => exact .inr (.complBegin core hlock hcore)
  | complCopyFirst hop => exact .inr (.complCopyFirst hop)
  | complCopySecond hop => exact .inr (.complCopySecond hop)
  | complPublish hop => exact .inr (.complPublish hop)
  | hostTake hidle hget => exact .inr (.hostTake hget)
  | hostReturn hhost hgot hput =>
      refine .inr (.hostReturn ?_ hput)
      rw [hhost]
      exact List.mem_singleton_self _

omit [Fintype C] in
/-- The counters only grow. -/
theorem FlowStep.few {st' : FlowState C P R}
    (hstep : FlowStep lim format st st') (hfew : st'.Few) : st.Few where
  transfers := by
    have htransfers := hfew.transfers
    rcases hstep.chanStep with hsame | hchan
    · exact hsame ▸ htransfers
    · exact Nat.lt_of_le_of_lt hchan.transfers_le htransfers
  sent := by
    intro core
    have hsent := hfew.sent core
    cases hstep with
    | add other packet hadd =>
        simp only [FlowState.add, Function.update_apply] at hsent
        split at hsent
        · rename_i heq
          rw [List.length_append] at hsent
          exact heq ▸ Nat.lt_of_le_of_lt (Nat.le_add_right _ _) hsent
        · exact hsent
    | _ => exact hsent

theorem FlowInv.step {st' : FlowState C P R}
    (h : FlowInv lim format blocks st) (hlawful : format.Lawful)
    (hblocks : blocks.length = frcSimpleRingBuffSize)
    (hapart : BlocksApart blocks) (hstep : FlowStep lim format st st')
    (hfew : st'.Few) : FlowInv lim format blocks st' := by
  have hbefore := hstep.few hfew
  cases hstep with
  | add core packet hadd => exact h.add hlawful hadd hfew
  | availBegin core hlock hheld hcore hlen hnum =>
      exact h.availBegin hblocks hlock hheld hcore hlen hnum hbefore
  | availCopyFirst hop => exact h.availCopyFirst hblocks hop hbefore
  | availCopySecond hop => exact h.availCopySecond hblocks hop hbefore
  | availPublish hop => exact h.availPublish hblocks hop hfew
  | scatter core hcur hcore => exact h.scatter hlawful hblocks hapart hcur hbefore
  | scatterFail core part hcur hcore =>
      exact h.scatterFail hlawful hblocks hapart part hcur hbefore
  | complBegin core hlock hcore =>
      exact h.complBegin hblocks hlock hcore hbefore
  | complCopyFirst hop => exact h.complCopyFirst hblocks hop hbefore
  | complCopySecond hop => exact h.complCopySecond hblocks hop hbefore
  | complPublish hop => exact h.complPublish hblocks hop hfew
  | hostTake hidle hget => exact h.hostTake hblocks hidle hget hfew
  | hostRead hhost => exact h.hostRead hlawful hhost
  | hostReturn hhost hgot hput =>
      exact h.hostReturn hblocks hhost hgot hput hfew

theorem FlowInv.start {avail : RingBuff} (hlog : RingLog avail blocks [])
    (mem : Nat → UInt8) (cell : FifoCell) :
    FlowInv lim format blocks (FlowState.start C P R avail mem cell) where
  chan := .start hlog
  fifo := fun _ => ⟨rfl, rfl, Nat.zero_le _, rfl⟩
  sent := fun _ => rfl
  length := rfl
  asked := fun _ _ hrequest => by cases hrequest
  held := fun _ => Nat.le_refl _
  written := fun _ _ _ _ _ haddr => by cases haddr
  inRing := fun _ _ _ _ haddr => by cases haddr
  reader := .idle rfl rfl rfl
  delivered := fun _ _ _ hentry => by cases hentry

theorem FlowReachable.inv {start : FlowState C P R}
    (hstart : FlowInv lim format blocks start) (hlawful : format.Lawful)
    (hblocks : blocks.length = frcSimpleRingBuffSize)
    (hapart : BlocksApart blocks)
    (hreach : FlowReachable lim format start st) (hfew : st.Few) :
    FlowInv lim format blocks st := by
  induction hreach with
  | start => exact hstart
  | step _ hstep ih =>
      exact (ih (hstep.few hfew)).step hlawful hblocks hapart hstep hfew

end Steps

/-- What the host and the cores see of a channel in a state: the host has a
result for each of the first packets that were posted, which is the packet if it
was written to its block; the blocks of the others are in the completed ring or
with the host; and what a core has sent has been posted in its order or still
waits in its fifo. -/
structure FlowDelivers (lim : DmaLimits) (format : ChanFormat P R)
    (st : FlowState C P R) : Prop where
  received : st.ReadsWritten format
  onTheWay : st.received.length + st.chan.host.length +
    st.chan.chan.compl.unread.length = st.posted.length
  sent : ∀ core, (st.posted.filter fun entry => entry.core = core).map
    Posted.packet ++ st.queue core = st.sent core
  waiting : ∀ core, Ring.window lim.coreFifoNum (st.fifo core).fifoCell
    (st.fifo core).localRidx (st.fifo core).localNum =
      (st.queue core).map format.cell

theorem FlowInv.delivers {lim : DmaLimits} {format : ChanFormat P R}
    {blocks : List Nat} {st : FlowState C P R}
    (h : FlowInv lim format blocks st) (hfew : st.Few) :
    FlowDelivers lim format st where
  received := h.delivered
  onTheWay := by
    have hentered := congrArg List.length (h.chan.complLog.entered_eq
      (ChanState.complIn_lt hfew.transfers))
    rw [List.length_append, ← h.length] at hentered
    cases h.reader with
    | idle hhost hgot hlength =>
        rw [hhost, hlength]
        exact hentered.symm
    | busy addr hhost hlength haddr hgot =>
        rw [hhost, List.length_singleton, hlength]
        exact hentered.symm
  sent := h.sent
  waiting := by
    intro core
    rw [(h.fifo core).localNum_eq (hfew.sent core)]
    exact (h.fifo core).log

omit [Fintype C] in
/-- If every packet was written, the host has read the first ones as they were
sent. -/
theorem FlowDelivers.received_eq_posted {lim : DmaLimits}
    {format : ChanFormat P R} {st : FlowState C P R}
    (h : FlowDelivers lim format st) (hwritten : st.AllWritten) :
    st.received = (st.posted.take st.received.length).map
      fun entry => some (format.received entry.packet) := by
  have hle : st.received.length ≤ st.posted.length := by
    have honTheWay := h.onTheWay
    omega
  apply List.ext_getElem
  · rw [List.length_map, List.length_take_of_le hle]
  · intro k hk hk'
    rw [List.getElem_map, List.getElem_take]
    have hlt := Nat.lt_of_lt_of_le hk hle
    exact h.received k _ _ (List.getElem?_eq_getElem hlt)
      (List.getElem?_eq_getElem hk) (hwritten _ (List.getElem_mem hlt))

/-- Every state that the steps lead to from a full ring delivers, and the host
takes only blocks of the channel. -/
theorem FlowReachable.delivers {lim : DmaLimits} {format : ChanFormat P R}
    {blocks : List Nat} {avail : RingBuff} {mem : Nat → UInt8}
    {cell : FifoCell} {st : FlowState C P R} (hlawful : format.Lawful)
    (hapart : BlocksApart blocks)
    (hblocks : blocks.length = frcSimpleRingBuffSize)
    (hlog : RingLog avail blocks [])
    (hreach : FlowReachable lim format (FlowState.start C P R avail mem cell)
      st) (hfew : st.Few) :
    FlowDelivers lim format st ∧ ∀ addr ∈ st.chan.host, addr ∈ blocks := by
  have hinv := hreach.inv (FlowInv.start hlog mem cell) hlawful hblocks hapart
    hfew
  refine ⟨hinv.delivers hfew, fun addr haddr => ?_⟩
  have hcount := hinv.chan.count_eq hblocks hfew.transfers addr
  have hpos := List.count_pos_iff.mpr haddr
  exact List.count_pos_iff.mp (by omega)

end Barley
