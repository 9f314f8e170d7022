/-
From segments to text files.  The blocks of many sessions reach the host in any
order between sessions; the file of each session is a dump of the bytes of its
accepted segments.
-/
import Barley.SsnFilesLaw

namespace Barley

def FrcDmaHdr.key (hdr : FrcDmaHdr) : SsnFileKey where
  sip := .ofNat hdr.sip
  dip := .ofNat hdr.dip
  sp := .ofNat hdr.sport
  dp := .ofNat hdr.dport

/-- What the blocks of a session are recognised by. -/
def SubmitSsn.key (ssn : SubmitSsn) : SsnFileKey := ssn.dmaHdr.key

section Keys

variable {ssn ssn' : SubmitSsn} {log events : List FlowEvent}

theorem SubmitSsn.advance_key (ssn : SubmitSsn) (dataLen : Nat) :
    (ssn.advance dataLen).key = ssn.key := by
  obtain ⟨sip, dip, sp, dp, proto, ssnIndex, word1, word2, ssnAddr⟩ := ssn
  -- with `rfl` the kernel would compare the lengths first
  exact Eq.refl (SsnFileKey.mk (.ofNat sip) (.ofNat dip) (.ofNat sp)
    (.ofNat dp))

/-- Every header of a session has its key. -/
theorem SubmitSteps.headKey (h : SubmitSteps ssn events ssn') :
    ∀ hdr addr, FlowEvent.cell (.head hdr addr) ∈ events →
      hdr.key = ssn.key := by
  induction h with
  | done ssn => exact fun hdr addr hmem => nomatch hmem
  | block addr hflag rest ih =>
      intro hdr addr hmem
      rcases List.mem_cons.mp hmem with hfirst | hrest
      · cases hfirst
      · exact ih hdr addr hrest
  | @head ssn ssn' events hflag rest ih =>
      intro hdr addr hmem
      rcases List.mem_cons.mp hmem with hfirst | hrest
      · rw [SubmitSsn.headCell] at hfirst
        injection hfirst with hcell
        injection hcell with hhdr
        rw [hhdr, SubmitSsn.key]
      · exact ih hdr addr hrest
  | payload current hflag hsize hfits rest ih =>
      intro hdr addr hmem
      rcases List.mem_cons.mp hmem with hfirst | hrest
      · cases hfirst
      · rw [ih hdr addr hrest, SubmitSsn.advance_key]
  | workFree work rest ih =>
      intro hdr addr hmem
      rcases List.mem_cons.mp hmem with hfirst | hrest
      · cases hfirst
      · exact ih hdr addr hrest

theorem SubmitInv.headKey (h : SubmitInv ssn log) {key : SsnFileKey}
    (hkey : ∀ hdr addr, FlowEvent.cell (.head hdr addr) ∈ log →
      hdr.key = key) {block : SsnBlock} (hblock : block ∈ blocksOf log)
    {payloads : List PayloadCell} {hdr : FrcDmaHdr}
    (hcomplete : block.Complete payloads hdr) : hdr.key = key := by
  have hcell : SsnFifoCell.head hdr block.addr ∈ cellsOf log := by
    rw [← h.entered, List.mem_flatMap]
    refine ⟨block, hblock, ?_⟩
    rw [hcomplete.cells_eq]
    exact List.mem_append_right _ (List.mem_singleton_self _)
  obtain ⟨event, hevent, hsome⟩ := List.mem_filterMap.mp hcell
  cases event with
  | cell cell =>
      obtain rfl : cell = .head hdr block.addr := Option.some_inj.mp hsome
      exact hkey hdr block.addr hevent
  | _ => cases hsome

end Keys

section Bytes

variable {block : SsnBlock} {payloads : List PayloadCell} {hdr : FrcDmaHdr}
  {mem : Nat → UInt8}

/-- The payloads of a block lie behind each other without gaps. -/
theorem SsnBlock.Complete.payloads_read (h : block.Complete payloads hdr)
    {stack : FrcDmaHdrT} {writes : List (Scatter.Write UInt8)}
    (hwritten : block.Written stack writes) (before : Nat → UInt8) {n : Nat}
    (hn : n ≤ payloads.length) :
    frcSsnBlockData (Scatter.run before writes) block.addr sizeofDmaHdr
        (totalSize (payloads.take n)) =
      (payloads.take n).flatMap PayloadCell.bytes := by
  induction n with
  | zero => rfl
  | succ n ih =>
      have hread := h.payload_read hwritten before hn
      have htake : payloads.take (n + 1) = payloads.take n ++ [payloads[n]] :=
        List.take_succ_eq_append_getElem hn
      rw [frcSsnBlockData] at ih hread ⊢
      rw [totalSize_take_succ hn, Scatter.read_add, ih (by omega),
        Nat.add_assoc, hread, htake, List.flatMap_append,
        List.flatMap_singleton]

/-- The host can put a complete block into a file. -/
theorem SsnBlock.Complete.shows (h : block.Complete payloads hdr)
    (hmem : block.InMemory mem) :
    SsnFileBlock.Shows ⟨block.addr, mem, true⟩
      ⟨hdr.key, payloads.flatMap PayloadCell.bytes⟩ := by
  obtain ⟨before, stack, writes, hwritten, rfl⟩ := hmem
  have hhead := h.head_get hwritten before
  have hlen : (payloads.flatMap PayloadCell.bytes).length =
      totalSize payloads := by
    rw [List.length_flatMap, totalSize]
    congr 1
    exact List.map_congr_left fun cell _ => by simp [PayloadCell.bytes]
  obtain ⟨htotal, -⟩ := h.law.bounds
  refine ⟨rfl, ?_, ?_, ?_⟩
  · dsimp only
    rw [hhead]
    rfl
  · dsimp only
    rw [hhead, hlen, ← h.totalPaylen_eq]
    exact UInt16.toNat_ofNat_of_lt' (h.totalPaylen_eq ▸ htotal)
  · have hread := h.payloads_read hwritten before (Nat.le_refl _)
    rw [List.take_length] at hread
    dsimp only
    rw [hlen, hread]

end Bytes

section Sessions

/-- A session and the calls for it. -/
structure SubmitPlan where
  ssn : SubmitSsn
  calls : List SubmitCall

def SubmitPlan.last (plan : SubmitPlan) : SubmitRun :=
  plan.calls.foldl SubmitRun.step ⟨plan.ssn, []⟩

def SubmitPlan.blocks (plan : SubmitPlan) : List SsnBlock :=
  blocksOf plan.last.log

/-- The bytes of the segments that are accepted. -/
def SubmitPlan.stream (plan : SubmitPlan) : List UInt8 :=
  (SubmitRun.accepted ⟨plan.ssn, []⟩ plan.calls).flatMap fun current =>
    (List.range current.dataLen).map current.data

/-- The session starts without a block and ends with its last block closed. -/
structure SubmitPlan.Closed (plan : SubmitPlan) : Prop where
  start : plan.ssn.ssnAddr.addrFlag = 0
  valid : ∀ call ∈ plan.calls, call.Valid
  stop : plan.last.ssn.ssnAddr.addrFlag = 0

/-- A block that reaches the host, whose it is, and the memory at its time. -/
structure SsnArrival where
  key : SsnFileKey
  block : SsnBlock
  mem : Nat → UInt8

def SsnArrival.fileBlock (arrival : SsnArrival) : SsnFileBlock :=
  ⟨arrival.block.addr, arrival.mem, true⟩

def SsnArrival.record (arrival : SsnArrival) : SsnRecord :=
  ⟨arrival.key, arrival.block.payloads.flatMap PayloadCell.bytes⟩

/-- Blocks of some sessions arrive: for each session, its blocks in order. -/
structure Arrive (plans : List SubmitPlan) (arrivals : List SsnArrival) :
    Prop where
  own : ∀ plan ∈ plans,
    (arrivals.filter fun arrival => arrival.key = plan.ssn.key).map
      SsnArrival.block = plan.blocks
  known : ∀ arrival ∈ arrivals, ∃ plan ∈ plans, arrival.key = plan.ssn.key
  inMemory : ∀ arrival ∈ arrivals, arrival.block.InMemory arrival.mem

variable {plan : SubmitPlan} {plans : List SubmitPlan}
  {arrivals : List SsnArrival}

/-- A closed session: its blocks are complete, have its key, and hold its
bytes. -/
theorem SubmitPlan.Closed.blocks_law (h : plan.Closed) :
    (∀ block ∈ plan.blocks, ∃ hdr, block.Complete block.payloads hdr ∧
      hdr.key = plan.ssn.key) ∧
    (plan.blocks.flatMap SsnBlock.payloads).flatMap PayloadCell.bytes =
      plan.stream := by
  obtain ⟨events, hlog, hsteps, hsegments⟩ :=
    SubmitRun.accepted_payloads ⟨plan.ssn, []⟩ plan.calls h.valid
  have hheaded := hsteps.headed (.start h.start)
  rw [List.nil_append] at hlog hheaded
  rw [← hlog] at hheaded hsegments
  have hkey := hsteps.headKey
  rw [← hlog] at hkey
  constructor
  · intro block hblock
    obtain ⟨hdr, hcomplete⟩ := (hheaded.inv.shaped block hblock).complete
      (hheaded.all h.stop block hblock)
    exact ⟨hdr, hcomplete, hheaded.inv.headKey hkey hblock hcomplete⟩
  · have hbytes := congrArg (List.flatMap SsnSegment.payload) hsegments
    rw [List.flatMap_map, List.flatMap_map] at hbytes
    rw [SubmitPlan.blocks, SubmitPlan.last, hheaded.inv.payloads_eq]
    exact hbytes

theorem Arrive.shows (h : Arrive plans arrivals)
    (hplans : ∀ plan ∈ plans, plan.Closed) :
    List.Forall₂ SsnFileBlock.Shows (arrivals.map SsnArrival.fileBlock)
      (arrivals.map SsnArrival.record) := by
  rw [List.forall₂_map_left_iff, List.forall₂_map_right_iff,
    List.forall₂_same]
  intro arrival harrival
  obtain ⟨plan, hplan, hkey⟩ := h.known arrival harrival
  have hblock : arrival.block ∈ plan.blocks := by
    rw [← h.own plan hplan]
    refine List.mem_map_of_mem (List.mem_filter.mpr ⟨harrival, ?_⟩)
    exact decide_eq_true hkey
  obtain ⟨hdr, hcomplete, hhdr⟩ :=
    (hplans plan hplan).blocks_law.1 arrival.block hblock
  have hshows := hcomplete.shows (h.inMemory arrival harrival)
  rw [hhdr, ← hkey] at hshows
  exact hshows

theorem Arrive.streamOf (h : Arrive plans arrivals)
    (hplans : ∀ plan ∈ plans, plan.Closed) (hplan : plan ∈ plans) :
    streamOf plan.ssn.key (arrivals.map SsnArrival.record) = plan.stream := by
  rw [← (hplans plan hplan).blocks_law.2, ← h.own plan hplan,
    Barley.streamOf, List.filter_map, List.flatMap_map, List.flatMap_map,
    List.flatMap_assoc]
  rfl

theorem Arrive.sessionCount_le (h : Arrive plans arrivals) :
    sessionCount (arrivals.map SsnArrival.record) ≤ plans.length := by
  have hsubset : ((arrivals.map SsnArrival.record).map SsnRecord.key).dedup ⊆
      plans.map fun plan => plan.ssn.key := by
    intro key hkey
    rw [List.mem_dedup, List.map_map] at hkey
    obtain ⟨arrival, harrival, rfl⟩ := List.mem_map.mp hkey
    obtain ⟨plan, hplan, heq⟩ := h.known arrival harrival
    exact List.mem_map.mpr ⟨plan, hplan, heq.symm⟩
  have hle := (List.subperm_of_subset (List.nodup_dedup _) hsubset).length_le
  rw [List.length_map] at hle
  exact hle

/-- The blocks of a session on their way to the host. -/
def SubmitPlan.underWay (plan : SubmitPlan) : List SsnArrival :=
  plan.blocks.map fun block => ⟨plan.ssn.key, block, block.mem⟩

theorem SubmitPlan.filter_underWay (plan other : SubmitPlan) :
    ((plan.underWay.filter fun arrival =>
      arrival.key = other.ssn.key).map SsnArrival.block) =
      if plan.ssn.key = other.ssn.key then plan.blocks else [] := by
  rw [SubmitPlan.underWay, List.filter_map, List.map_map]
  split
  · rename_i heq
    simp [Function.comp_def, heq]
  · rename_i hne
    simp [Function.comp_def, hne]

/-- Two sessions of the same stations. -/
def httpPlan : SubmitPlan := ⟨newSubmitSsn, twoSegments⟩

def smtpPlan : SubmitPlan := ⟨{ newSubmitSsn with dp := 25 }, twoSegments⟩

end Sessions

end Barley
