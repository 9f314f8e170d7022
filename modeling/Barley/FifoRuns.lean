/-
Calls of `fifo_post` over whole runs of a channel that the driver has filled.
Between the calls the host takes blocks and gives them back; the calls keep
their promise all along exactly if none of them fails once it has taken
addresses.
-/
import Barley.FifoWritten
import Barley.GuardedRuns

namespace Barley

/-- A call of `fifo_post`: any fifo that `fifo_add` can leave, and any outcome
of the DMA operations. -/
structure PostCall (lim : DmaLimits) where
  fifo : SimpleFifo
  ok : fifo.Ok lim
  dma : Nat → PostDma
  resting : Nat → Bool
  exhaust : Bool
  flag : Bool

/-- The host takes a block, gives one back, or a core posts. -/
inductive PostEvent (lim : DmaLimits) where
  | hostTake
  | hostReturn (addr : Nat)
  | post (call : PostCall lim)

/-- The channel, and the addresses that the host has taken from it. -/
structure PostRun where
  chan : SimpleChan
  host : List Nat

section Runs

variable {lim : DmaLimits}

def PostCall.result (call : PostCall lim) (chan : SimpleChan) : PostState :=
  fifoPost lim call.dma call.resting chan call.fifo call.exhaust call.flag

/-- How many addresses an event can move. -/
def PostEvent.moved : PostEvent lim → Nat
  | .hostTake => 1
  | .hostReturn _ => 1
  | .post call => 2 * call.fifo.localNum

namespace PostRun

/-- The channel with all blocks in the available ring. -/
def start (avail : RingBuff) : PostRun where
  chan := (ChanState.start Unit avail).chan
  host := []

/-- The host cannot take a block from an empty ring, nor give back one that it
has not taken. -/
def step (run : PostRun) : PostEvent lim → Option PostRun
  | .hostTake => run.chan.compl.get.map fun got =>
      ⟨{ run.chan with compl := got.2 }, got.1 :: run.host⟩
  | .hostReturn addr =>
      if addr ∈ run.host then
        (run.chan.avail.put addr).map fun ring =>
          ⟨{ run.chan with avail := ring }, run.host.erase addr⟩
      else none
  | .post call => some { run with chan := (call.result run.chan).chan }

/-- A call shows only what it has written, skips only what it has written, and
loses no address. -/
def Promises (run : PostRun) : PostEvent lim → Prop
  | .hostTake => True
  | .hostReturn _ => True
  | .post call =>
      PostedMeansWritten lim run.chan call.fifo (call.result run.chan)

/-- No DMA operation of a call fails once the call has taken addresses. -/
def Sound (run : PostRun) : PostEvent lim → Prop
  | .hostTake => True
  | .hostReturn _ => True
  | .post call => PostSound lim call.dma call.resting run.chan call.fifo
      call.exhaust call.flag

end PostRun

end Runs

/-- A run that has not failed is one of the protocol's, with a single core that
holds nothing between its calls. -/
structure PostRun.Inv (blocks : List Nat) (run : PostRun)
    (s : ChanState Unit) : Prop where
  inv : ChanInv blocks s
  chan : s.chan = run.chan
  host : s.host = run.host
  availOp : s.availOp = .free
  complOp : s.complOp = .free
  held : s.held () = []

section Steps

variable {lim : DmaLimits} {blocks : List Nat} {run : PostRun}
  {s : ChanState Unit} (h : run.Inv blocks s)
  (hblocks : blocks.length = frcSimpleRingBuffSize)

include h

theorem PostRun.Inv.hostTake {addr : Nat} {ring : RingBuff}
    (hget : run.chan.compl.get = some (addr, ring))
    (hfew : s.transfers < 2 ^ 64) :
    PostRun.Inv blocks ⟨{ run.chan with compl := ring }, addr :: run.host⟩
      (s.hostTake addr ring) where
  inv := h.inv.hostTake (h.chan ▸ hget) hfew
  chan := by rw [ChanState.hostTake, h.chan]
  host := by rw [ChanState.hostTake, h.host]
  availOp := h.availOp
  complOp := h.complOp
  held := h.held

include hblocks in
theorem PostRun.Inv.hostReturn {addr : Nat} {ring : RingBuff}
    (hmem : addr ∈ run.host) (hput : run.chan.avail.put addr = some ring)
    (hfew : s.transfers < 2 ^ 64) :
    PostRun.Inv blocks
      ⟨{ run.chan with avail := ring }, run.host.erase addr⟩
      (s.hostReturn addr ring) where
  inv := h.inv.hostReturn (h.host ▸ hmem) (h.chan ▸ hput) hblocks hfew
  chan := by rw [ChanState.hostReturn, h.chan]
  host := by rw [ChanState.hostReturn, h.host]
  availOp := h.availOp
  complOp := h.complOp
  held := h.held

/-- The core's copy of the write index does not matter between calls. -/
theorem PostRun.Inv.syncAvail :
    PostRun.Inv blocks { run with chan := run.chan.syncAvail }
      { s with chan := s.chan.syncAvail } where
  inv := ⟨h.inv.availLog, h.inv.availRidx, h.inv.complLog, h.inv.complWidx,
    h.inv.taken, h.inv.returned, h.inv.exclusive, h.inv.availOp,
    h.inv.complOp⟩
  chan := by rw [h.chan]
  host := h.host
  availOp := h.availOp
  complOp := h.complOp
  held := h.held

include hblocks in
/-- Addresses that are taken, and then all put into the completed ring. -/
theorem PostRun.Inv.takesAndPuts {number : Nat} {chan' : SimpleChan}
    (hchan : run.chan.Ready) (hlen : number ≤ run.chan.syncAvail.availLen)
    (hput : chanComplPut .ok (run.chan.taken number) (run.chan.head number) =
      (.success, chan'))
    (hfew : s.transfers + 2 * number < 2 ^ 64) :
    ∃ s', PostRun.Inv blocks { run with chan := chan' } s' ∧
      s'.transfers = s.transfers + 2 * number := by
  have hget : chanAvailGet .ok run.chan number =
      (.success, run.chan.taken number, run.chan.head number) :=
    chanAvailGet_takes (hchan.le_size hlen) ⟨rfl, hlen, rfl, fun _ => rfl⟩
  have hlength : (run.chan.head number).length = number :=
    Ring.length_window _ _ _ _
  have hfree : s.complOp.core ≠ some () := by
    rw [h.complOp]
    exact nofun
  have hfree' : s.availOp.core ≠ some () := by
    rw [h.availOp]
    exact nofun
  -- the state between the two calls, and the one after them
  obtain ⟨got, hgot⟩ : ∃ got, got = s.afterGet ()
      (.success, run.chan.taken number, run.chan.head number) := ⟨_, rfl⟩
  have htake : ChanReachable number s got := by
    have hcall := ChanReachable.availGet h.availOp h.held hfree
      (Nat.le_refl number)
    rwa [h.chan, hget, ← hgot] at hcall
  have hheld : got.held () = run.chan.head number := by
    simp only [hgot, ChanState.afterGet, Function.update_self]
  have hchan' : got.chan = run.chan.taken number := by rw [hgot]; rfl
  have hputs : ChanReachable number got (got.afterPut () (.success, chan')) := by
    have hcall : ChanReachable number got
        (got.afterPut () (chanComplPut .ok got.chan (got.held ()))) :=
      .complPut (hgot ▸ h.complOp) (hgot ▸ hfree')
    rwa [hheld, hchan', hput] at hcall
  have hmiddle : got.transfers = s.transfers + number := by
    rw [hgot]
    simp only [ChanState.transfers, ChanState.afterGet, List.length_append,
      hlength]
    omega
  have hend : (got.afterPut () (.success, chan')).transfers =
      s.transfers + 2 * number := by
    simp only [ChanState.transfers] at hmiddle
    simp only [ChanState.transfers, ChanState.afterPut, List.length_append,
      hheld, hlength]
    omega
  have hinv := htake.inv h.inv hblocks (by omega)
  refine ⟨_, ⟨hputs.inv hinv hblocks (by omega), rfl, ?_, ?_, ?_, ?_⟩, hend⟩
  · exact hgot ▸ h.host
  · exact hgot ▸ h.availOp
  · exact hgot ▸ h.complOp
  · simp only [ChanState.afterPut, Function.update_self]

end Steps

section Law

variable {lim : DmaLimits} {blocks : List Nat}

theorem PostRun.Inv.ready {run : PostRun} {s : ChanState Unit}
    (h : run.Inv blocks s) (hblocks : blocks.length = frcSimpleRingBuffSize)
    (hnodup : blocks.Nodup) (hword : ∀ addr ∈ blocks, addr < 2 ^ 64)
    (hfew : s.transfers + frcSimpleRingBuffSize < 2 ^ 64) :
    run.chan.Ready :=
  h.chan ▸ h.inv.ready hblocks hnodup hword hfew

/-- A call without a failure after its addresses are taken leaves the channel
as the protocol does. -/
theorem PostRun.Inv.post {run : PostRun} {s : ChanState Unit}
    (h : run.Inv blocks s) (hblocks : blocks.length = frcSimpleRingBuffSize)
    (hchan : run.chan.Ready) {call : PostCall lim}
    (hsound : run.Sound (.post call))
    (hfew : s.transfers + 2 * call.fifo.localNum < 2 ^ 64) :
    ∃ s', PostRun.Inv blocks
        { run with chan := (call.result run.chan).chan } s' ∧
      s'.transfers ≤ s.transfers + 2 * call.fifo.localNum := by
  rw [PostCall.result]
  by_cases hruns : PostRuns lim call.resting call.fifo call.exhaust call.flag
  · by_cases htakes : (call.dma 0).avail.Takes run.chan call.fifo.localNum
    · obtain ⟨hridx, -, hputs⟩ := hsound hruns htakes
      have hlen := htakes.2.1
      have hlength : (run.chan.head call.fifo.localNum).length =
          call.fifo.localNum := Ring.length_window _ _ _ _
      have hroom := hchan.complFull_eq_false hlen
      rw [← hlength] at hputs hroom
      have hput := chanComplPut_puts (call.dma 0).compl
        (run.chan.taken call.fifo.localNum) (run.chan.head call.fifo.localNum)
        hputs (hlength ▸ hroom)
      have hok := chanComplPut_puts .ok (run.chan.taken call.fifo.localNum)
        (run.chan.head call.fifo.localNum) ⟨rfl, rfl, fun _ => rfl, rfl⟩
        (hlength ▸ hroom)
      rw [fifoPost_of_succeeds hruns call.ok (hchan.le_size hlen) htakes hridx
        hput]
      obtain ⟨s', hinv, htransfers⟩ :=
        h.takesAndPuts hblocks hchan hlen hok hfew
      exact ⟨s', hinv, Nat.le_of_eq htransfers⟩
    · obtain ⟨chan', exhaust', hsame, hpost⟩ :=
        fifoPost_of_not_takes hruns call.ok htakes
      rw [hpost]
      rcases hsame with rfl | rfl
      · exact ⟨s, h, Nat.le_add_right _ _⟩
      · exact ⟨_, h.syncAvail, Nat.le_add_right _ _⟩
  · rw [fifoPost_idle hruns]
    exact ⟨s, h, Nat.le_add_right _ _⟩

/-- A step that keeps to the condition keeps to the protocol. -/
theorem PostRun.Inv.step {run next : PostRun} {s : ChanState Unit}
    (h : run.Inv blocks s) (hblocks : blocks.length = frcSimpleRingBuffSize)
    (hchan : run.chan.Ready) {event : PostEvent lim} (hsound : run.Sound event)
    (hfew : s.transfers + event.moved < 2 ^ 64)
    (hstep : run.step event = some next) :
    ∃ s', next.Inv blocks s' ∧ s'.transfers ≤ s.transfers + event.moved := by
  have hnow : s.transfers < 2 ^ 64 := by omega
  cases event with
  | hostTake =>
      rw [PostRun.step, Option.map_eq_some_iff] at hstep
      obtain ⟨got, hget, rfl⟩ := hstep
      refine ⟨_, h.hostTake hget hnow, ?_⟩
      simp only [ChanState.transfers, ChanState.hostTake, PostEvent.moved,
        List.length_append, List.length_singleton]
      omega
  | hostReturn addr =>
      rw [PostRun.step] at hstep
      split at hstep
      · rename_i hmem
        rw [Option.map_eq_some_iff] at hstep
        obtain ⟨ring, hput, rfl⟩ := hstep
        refine ⟨_, h.hostReturn hblocks hmem hput hnow, ?_⟩
        simp only [ChanState.transfers, ChanState.hostReturn, PostEvent.moved,
          List.length_append, List.length_singleton]
        omega
      · cases hstep
  | post call =>
      cases hstep
      exact h.post hblocks hchan hsound hfew

/-- The channel that the driver has filled. -/
theorem PostRun.Inv.start {avail : RingBuff} (hlog : RingLog avail blocks []) :
    (PostRun.start avail).Inv blocks (.start Unit avail) :=
  ⟨ChanInv.start hlog, rfl, rfl, rfl, rfl, rfl⟩

/-- From the filled channel on, every call of a run keeps its promise exactly
if in every call no DMA operation fails once addresses are taken. -/
theorem postRun_promises_iff (hnodup : blocks.Nodup)
    (hblocks : blocks.length = frcSimpleRingBuffSize)
    (hword : ∀ addr ∈ blocks, addr < 2 ^ 64) {avail : RingBuff}
    (hinit : chanAvailInit .zero blocks = some avail)
    (events : List (PostEvent lim))
    (hfew : (events.map PostEvent.moved).sum + frcSimpleRingBuffSize <
      2 ^ 64) :
    GuardedRuns.Each PostRun.step PostRun.Promises (.start avail) events ↔
      GuardedRuns.Each PostRun.step PostRun.Sound (.start avail) events := by
  obtain ⟨filled, hfilled, hlog⟩ := RingLog.zero.chanAvailInit blocks
    (by rw [List.length_nil, hblocks, Nat.zero_add])
  rw [hinit, Option.some.injEq] at hfilled
  subst hfilled
  refine GuardedRuns.each_iff_each (fun run rest => ∃ s : ChanState Unit,
    run.Inv blocks s ∧ s.transfers + (rest.map PostEvent.moved).sum +
      frcSimpleRingBuffSize < 2 ^ 64) ?_ ?_
    ⟨_, PostRun.Inv.start hlog, ?_⟩
  · intro run event rest ⟨s, hinv, hleft⟩
    have hchan := hinv.ready hblocks hnodup hword (by omega)
    cases event with
    | hostTake => exact Iff.rfl
    | hostReturn addr => exact Iff.rfl
    | post call =>
        exact postedMeansWritten_iff call.dma call.resting call.exhaust
          call.flag hchan call.ok
  · intro run event rest next ⟨s, hinv, hleft⟩ hsound hstep
    rw [List.map_cons, List.sum_cons] at hleft
    have hchan := hinv.ready hblocks hnodup hword (by omega)
    obtain ⟨s', hinv', hle⟩ :=
      hinv.step hblocks hchan hsound (by omega) hstep
    exact ⟨s', hinv', by omega⟩
  · show 0 + _ + _ < _
    omega

end Law

section Example

/-- Fourteen pointers to a scatter, as the comment of `fifo_post` has it. -/
def fourteen : DmaLimits := ⟨14, by decide⟩

/-- A fifo with packets of 100 bytes. -/
def packets (number : Nat) : SimpleFifo where
  localWidx := number
  localRidx := 0
  fifoCell := fun _ => ⟨100, List.replicate 100 0⟩

theorem packets_localNum {number : Nat} (h : number < 2 ^ 64) :
    (packets number).localNum = number :=
  sub64_eq (Nat.zero_le number) h

theorem packets_ok {number : Nat} (h : number ≤ 224) :
    (packets number).Ok fourteen := by
  rw [SimpleFifo.Ok, packets_localNum (by omega)]
  exact h

/-- Their post, with scatters that may fail. -/
def postPackets (number : Nat) (h : number ≤ 224) (scatter : Bool) :
    PostCall fourteen where
  fifo := packets number
  ok := packets_ok h
  dma := fun _ => ⟨.ok, fun _ => scatter, .ok⟩
  resting := fun _ => false
  exhaust := false
  flag := false

/-- Blocks of 4096 bytes. -/
def pageBlocks : List Nat :=
  (List.range frcSimpleRingBuffSize).map (4096 * ·)

theorem pageBlocks_nodup : pageBlocks.Nodup :=
  List.nodup_range.map fun a b (hab : 4096 * a = 4096 * b) => by omega

theorem length_pageBlocks : pageBlocks.length = frcSimpleRingBuffSize := by
  rw [pageBlocks, List.length_map, List.length_range]

theorem pageBlocks_word : ∀ addr ∈ pageBlocks, addr < 2 ^ 64 := by
  intro addr hmem
  obtain ⟨k, hk, rfl⟩ := List.mem_map.mp hmem
  have hsize : frcSimpleRingBuffSize = 20480 := rfl
  have hlt := List.mem_range.mp hk
  show 4096 * k < 2 ^ 64
  omega

/-- A packet is shown to the host although its scatter fails. -/
theorem postPackets_breaks_promise :
    ¬ ∀ (avail : RingBuff) (events : List (PostEvent fourteen)),
      chanAvailInit .zero pageBlocks = some avail →
      GuardedRuns.Each PostRun.step PostRun.Promises (.start avail)
        events := by
  intro hall
  have hsize : frcSimpleRingBuffSize = 20480 := rfl
  obtain ⟨avail, hinit, hlog⟩ := RingLog.zero.chanAvailInit pageBlocks
    (by rw [List.length_nil, length_pageBlocks, Nat.zero_add])
  rw [List.nil_append] at hlog
  have hinv := PostRun.Inv.start hlog
  have hchan := hinv.ready length_pageBlocks pageBlocks_nodup pageBlocks_word
    (by show 0 + frcSimpleRingBuffSize < 2 ^ 64; omega)
  have hpromise :=
    (hall avail [.post (postPackets 1 (by decide) false)] hinit).1
  have hsound := sound_of_posted hchan (packets_ok (by decide)) hpromise
  have htakes : AvailDma.ok.Takes (PostRun.start avail).chan
      (packets 1).localNum := by
    refine ⟨rfl, ?_, rfl, fun _ => rfl⟩
    rw [hchan.availLen_eq, packets_localNum (by decide)]
    show 1 ≤ avail.widx - avail.ridx
    rw [hlog.widx, hlog.ridx, length_pageBlocks, List.length_nil, hsize]
    omega
  have hscatter := (hsound ⟨Nat.one_ne_zero, rfl⟩ htakes).2.1 0 Nat.one_pos
  cases hscatter

/-- Twenty packets in two scatters; the host takes the first block and gives
it back before another packet is posted. -/
theorem postRun_promises_twenty :
    ∃ avail, chanAvailInit .zero pageBlocks = some avail ∧
      GuardedRuns.Each PostRun.step PostRun.Promises (.start avail)
        [.post (postPackets 20 (by decide) true), .hostTake, .hostReturn 0,
          .post (postPackets 1 (by decide) true)] := by
  obtain ⟨avail, hinit, -⟩ := RingLog.zero.chanAvailInit pageBlocks
    (by rw [List.length_nil, length_pageBlocks, Nat.zero_add])
  have hsound : ∀ run number (h : number ≤ 224),
      PostRun.Sound run (.post (postPackets number h true)) :=
    fun _ _ _ _ _ => ⟨rfl, fun _ _ => rfl, rfl, rfl, fun _ => rfl, rfl⟩
  refine ⟨avail, hinit, (postRun_promises_iff pageBlocks_nodup
    length_pageBlocks pageBlocks_word hinit _ (by decide)).mpr ?_⟩
  exact ⟨hsound _ _ _, fun _ _ => ⟨trivial, fun _ _ => ⟨trivial, fun _ _ =>
    ⟨hsound _ _ _, fun _ _ => trivial⟩⟩⟩⟩

end Example

end Barley
