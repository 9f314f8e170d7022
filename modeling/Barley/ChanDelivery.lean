/-
What the host reads of the channels that the driver has set up.
-/
import Barley.ChanSetupLaw

namespace Barley

section Driver

variable {alloc : Nat → Option Nat} {used : Nat} {chan : FrcDmaChan}

/-- The blocks of a simple channel, as its protocol needs them. -/
theorem PagesApart.blocksApart (h : PagesApart alloc) :
    BlocksApart (ChanKind.simplePackage.blocks (allocPools alloc used
      ChanKind.simplePackage.poolNumMax)) where
  apart := by
    have hapart : Spaces.Apart frcDmaPoolSize (allocPools alloc used
        ChanKind.simplePackage.poolNumMax) := h.apart_allocPools
    rw [← ChanKind.simplePackage_lawful.divides] at hapart
    rw [ChanKind.simplePackage_lawful.blocks_eq h.below_allocPools]
    exact hapart.cut
  below := by
    intro block hblock
    rw [ChanKind.simplePackage_lawful.blocks_eq h.below_allocPools] at hblock
    obtain ⟨addr, haddr, hcut⟩ := List.mem_flatMap.mp hblock
    have hinside := (Spaces.mem_cut hcut).2
    rw [ChanKind.simplePackage_lawful.divides] at hinside
    have hbelow := h.below_allocPools addr haddr
    exact Nat.le_of_lt (Nat.lt_of_le_of_lt hinside hbelow)

variable {C P R : Type} [Fintype C] [DecidableEq C]

/-- The packets of a simple channel that the driver has set up. -/
theorem ChanReady.delivers (hpages : PagesApart alloc)
    (hlength : (allocPools alloc used
      ChanKind.simplePackage.poolNumMax).length =
        ChanKind.simplePackage.poolNumMax) {ring : RingBuff}
    (hready : ChanReady .simplePackage (allocPools alloc used
      ChanKind.simplePackage.poolNumMax) chan ring)
    {lim : DmaLimits} {format : ChanFormat P R} (hlawful : format.Lawful)
    {mem : Nat → UInt8} {cell : FifoCell} {st : FlowState C P R}
    (hreach : FlowReachable lim format (FlowState.start C P R ring mem cell)
      st) (hfew : st.Few) :
    FlowDelivers lim format st ∧ ∀ block ∈ st.chan.host,
      chan.Mapped frcDmaSimplePackageBlockSize block := by
  have hfull := hpages.full ChanKind.simplePackage_lawful hlength hready
  obtain ⟨hdelivers, hhost⟩ := hreach.delivers hlawful hpages.blocksApart
    hfull.full hready.filled.log hfew
  exact ⟨hdelivers, fun block hblock => hfull.mapped block (hhost block hblock)⟩

end Driver

section Through

variable {C P R : Type} [DecidableEq C] {lim : DmaLimits}
  {format : ChanFormat P R} {avail : RingBuff} {cell : FifoCell} {core : C}
  {packet : P} {next : SimpleFifo}

theorem RingBuff.get_single {ring : RingBuff} (hridx : ring.ridx = 0)
    (hwidx : ring.widx = 1) :
    ring.get = some (ring.buff (ring.ridx % frcSimpleRingBuffSize),
      { ring with ridx := add64 ring.ridx 1 }) := by
  apply if_pos
  rw [hridx, hwidx]
  decide

theorem RingBuff.put_missing {ring : RingBuff} {addr : Nat}
    (hridx : ring.ridx = 1) (hwidx : ring.widx = frcSimpleRingBuffSize) :
    ring.put addr = some { ring with
      buff := Function.update ring.buff (ring.widx % frcSimpleRingBuffSize) addr
      widx := add64 ring.widx 1 } := by
  apply if_pos
  rw [hridx, hwidx]
  decide

/-- A core takes a block for its packet. -/
theorem FlowReachable.taken (mem : Nat → UInt8) (hridx : avail.ridx = 0)
    (hwidx : avail.widx = frcSimpleRingBuffSize) (hlwm : 1 ≤ lim.chanPostLwm)
    (core : C)
    (hadd : format.add lim ⟨0, 0, fun _ => cell⟩ packet = (.success, next))
    (hnum : 1 ≤ next.localNum) :
    ∃ st addr, FlowReachable lim format
        (FlowState.start C P R avail mem cell) st ∧
      st.chan.held core = [addr] ∧ st.queue core = [packet] ∧
      st.sent = Function.update (fun _ => []) core [packet] ∧
      st.posted = [] ∧ st.received = [] ∧ st.chan.host = [] ∧
      st.chan.availOp = .free ∧ st.chan.complOp = .free ∧
      st.chan.transfers = 1 ∧ st.chan.chan.complWidx = 0 ∧
      st.chan.chan.compl.ridx = 0 ∧ st.chan.chan.avail.ridx = 1 ∧
      st.chan.chan.avail.widx = frcSimpleRingBuffSize := by
  have hput : FlowReachable lim format
      (FlowState.start C P R avail mem cell) _ :=
    .step .start (.add core packet hadd)
  have hbegin := hput.step (.availBegin core rfl rfl
    (Option.some_ne_none _ ∘ Eq.symm) hlwm
    (by simpa [FlowState.add] using hnum))
  have hlen : ¬ sub64 avail.widx avail.ridx < 1 := by
    rw [hridx, hwidx]
    decide
  have hfirst := hbegin.step (.availCopyFirst (if_neg hlen))
  have hone : SimpleChan.len1 avail.ridx 1 = 1 := by
    rw [hridx]
    decide
  have hwhole : ¬ SimpleChan.len1 avail.ridx 1 < 1 := by
    rw [hone]
    exact Nat.lt_irrefl 1
  have htaken := hfirst.step (.availPublish (if_neg hwhole))
  refine ⟨_, avail.buff (avail.ridx % frcSimpleRingBuffSize), htaken, ?_, ?_,
    rfl, rfl, rfl, rfl, rfl, rfl, ?_, rfl, rfl, ?_, hwidx⟩
  · refine (Function.update_self ..).trans ?_
    show Ring.read avail.buff _ (SimpleChan.len1 avail.ridx 1) = _
    rw [hone]
    rfl
  · exact Function.update_self ..
  · show 0 + (Ring.read avail.buff _ (SimpleChan.len1 avail.ridx 1)).length + 0 + 0 = 1
    rw [hone]
    rfl
  · show add64 avail.ridx 1 = 1
    rw [hridx]
    rfl

/-- A core completes a block with its packet. -/
theorem FlowReachable.completed {start st : FlowState C P R} {addr : Nat}
    (h : FlowReachable lim format start st) (hheld : st.chan.held core = [addr])
    (hqueue : st.queue core = [packet]) (hposted : st.posted = [])
    (havail : st.chan.availOp = .free) (hcompl : st.chan.complOp = .free)
    (hwidx : st.chan.chan.complWidx = 0) (hridx : st.chan.chan.compl.ridx = 0) :
    ∃ st', FlowReachable lim format start st' ∧
      st'.posted = [⟨core, packet, true⟩] ∧ st'.sent = st.sent ∧
      st'.received = st.received ∧ st'.chan.host = st.chan.host ∧
      st'.chan.transfers = st.chan.transfers + 1 ∧
      st'.chan.chan.compl.ridx = 0 ∧ st'.chan.chan.compl.widx = 1 ∧
      st'.chan.chan.avail = st.chan.chan.avail := by
  have hlength : (st.chan.held core).length = 1 := by
    rw [hheld]
    rfl
  have hpos : 0 < (st.chan.held core).length :=
    Nat.lt_of_lt_of_eq Nat.one_pos hlength.symm
  have hlone : (none : Option C) ≠ some core := Option.some_ne_none _ ∘ Eq.symm
  have hwritten := h.step (.scatter core hpos (hcompl ▸ hlone))
  have hcomplete := hwritten.step (.complBegin core hcompl
    (show st.chan.availOp.core ≠ _ from havail ▸ hlone))
  have hroom : st.chan.chan.syncCompl.complFull (st.chan.held core).length =
      false := by
    simp only [SimpleChan.complFull, SimpleChan.syncCompl, hwidx, hridx,
      hlength]
    decide
  have hcopied := hcomplete.step (.complCopyFirst
    (if_neg (Bool.eq_false_iff.mp hroom)))
  have hwhole : ¬ SimpleChan.len1 st.chan.chan.complWidx
      (st.chan.held core).length < (st.chan.held core).length := by
    rw [hwidx, hlength]
    decide
  have hdone := hcopied.step (.complPublish (if_neg hwhole))
  refine ⟨_, hdone, ?_, rfl, rfl, rfl, ?_, hridx, ?_, rfl⟩
  · show st.posted ++ ((st.queue core).take (st.chan.held core).length).mapIdx
      _ = _
    rw [hposted, hqueue, hlength]
    simp [FlowState.scatter]
  · show st.chan.availIn.length + st.chan.availOut.length +
      (st.chan.complIn ++ st.chan.held core).length +
        st.chan.complOut.length = _
    rw [List.length_append, hlength, ChanState.transfers]
    omega
  · show add64 st.chan.chan.complWidx (st.chan.held core).length = 1
    rw [hwidx, hlength]
    rfl

/-- A packet goes through a block to the host. -/
theorem FlowReachable.through (mem : Nat → UInt8) (hridx : avail.ridx = 0)
    (hwidx : avail.widx = frcSimpleRingBuffSize) (hlwm : 1 ≤ lim.chanPostLwm)
    (core : C)
    (hadd : format.add lim ⟨0, 0, fun _ => cell⟩ packet = (.success, next))
    (hnum : 1 ≤ next.localNum) :
    ∃ st, FlowReachable lim format (FlowState.start C P R avail mem cell) st ∧
      st.posted = [⟨core, packet, true⟩] ∧ st.received.length = 1 ∧
      st.sent = Function.update (fun _ => []) core [packet] ∧
      st.chan.transfers = 4 := by
  obtain ⟨_, addr, htaken, hheld, hqueue, hsent, hposted, hreceived, hhost,
    havail, hcompl, hone, hcomplWidx, hcomplRidx, hridx, hwidx⟩ :=
    FlowReachable.taken mem hridx hwidx hlwm core hadd hnum
  obtain ⟨st, hreach, hposted, hsent', hreceived', hhost', htwo, hcomplRidx,
    hcomplWidx, hring⟩ :=
    htaken.completed hheld hqueue hposted havail hcompl hcomplWidx hcomplRidx
  rw [hhost] at hhost'
  rw [← hring] at hridx hwidx
  have htake := hreach.step (.hostTake hhost'
    (RingBuff.get_single hcomplRidx hcomplWidx))
  have hread := htake.step (.hostRead (by rw [ChanState.hostTake, hhost']))
  have hback := hread.step (.hostReturn (by rw [ChanState.hostTake, hhost']) rfl
    (RingBuff.put_missing hridx hwidx))
  refine ⟨_, hback, hposted, ?_, hsent'.trans hsent, ?_⟩
  · show (st.received ++ _).length = 1
    rw [hreceived', hreceived]
    rfl
  · show (st.chan.availIn ++ [_]).length + st.chan.availOut.length +
      st.chan.complIn.length + (st.chan.complOut ++ [_]).length = 4
    rw [List.length_append, List.length_append, List.length_singleton]
    rw [hone, ChanState.transfers] at htwo
    omega

theorem FlowState.Few.of_through {st : FlowState C P R}
    (hsent : st.sent = Function.update (fun _ => []) core [packet])
    (htransfers : st.chan.transfers = 4) : st.Few where
  transfers := by
    rw [htransfers]
    decide
  sent := by
    intro other
    rw [hsent, Function.update_apply]
    split
    · exact Nat.one_lt_two_pow (by decide)
    · exact Nat.two_pow_pos 64

/-- Every packet is accepted by an empty fifo. -/
theorem ChanFormat.Lawful.accepted (hlawful : format.Lawful) (packet : P)
    (cell : FifoCell) :
    ∃ next, format.add lim ⟨0, 0, fun _ => cell⟩ packet = (.success, next) ∧
      1 ≤ next.localNum := by
  obtain ⟨hdr, info, payload, hadd, hframe⟩ :=
    hlawful.add_eq lim ⟨0, 0, fun _ => cell⟩ packet
  have hfits := hlawful.fits packet
  rw [hframe, List.length_append, List.length_append,
    frcDmaSimplePackageDataSize, frcDmaSimplePackageBlockSize,
    frcDmaOffset] at hfits
  have hempty : FifoLog lim ⟨0, 0, fun _ => cell⟩ [] 0 :=
    ⟨rfl, rfl, Nat.zero_le _, rfl⟩
  have hfew : 0 + 1 < 2 ^ 64 := Nat.one_lt_two_pow (by decide)
  have hroom : SimpleFifo.localNum ⟨0, 0, fun _ => cell⟩ < lim.coreFifoNum := by
    rw [hempty.localNum_eq (Nat.two_pow_pos 64), DmaLimits.coreFifoNum]
    exact Nat.mul_pos lim.pos (by decide)
  obtain ⟨next, hnext⟩ : ∃ next, SimpleFifo.add lim ⟨0, 0, fun _ => cell⟩ hdr
      info payload = (.success, next) :=
    SimpleFifo.add_success (by omega) hroom
  refine ⟨next, hadd.trans hnext, ?_⟩
  rw [(hempty.add hfew hnext).localNum_eq hfew]
  exact Nat.le_refl 1

end Through

/-- The available ring of the UDP channel is full. -/
theorem frcdrvChansInit_udp {alloc : Nat → Option Nat}
    (hpages : PagesApart alloc) {chans : FrcdrvChans}
    (hinit : frcdrvChansInit alloc = some chans) :
    ∃ udp, chans.udp.avail = some udp ∧ udp.ridx = 0 ∧
      udp.widx = frcSimpleRingBuffSize := by
  have hsimple := ChanKind.simplePackage_lawful
  obtain ⟨used, used', used'', hudp, -⟩ := frcdrvChansInit_setups.mp hinit
  obtain ⟨-, hlength, udp, hready⟩ :=
    chanSetup_ready hsimple (Nat.le_refl _) hudp
  have hfull := hpages.full hsimple hlength hready
  exact ⟨udp, hready.avail, hready.filled.ridx,
    hready.filled.widx.trans hfull.full⟩

/-- A packet of three bytes. -/
def SmallPacket.three : SmallPacket :=
  ⟨⟨{ (default : FrcDmaHdrT) with totalPaylen := 3 }, [1, 2, 3], default, rfl⟩,
    by decide⟩

end Barley
