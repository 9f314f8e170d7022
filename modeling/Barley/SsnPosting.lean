/-
The loop that posts a session fifo.  Each round posts some cells and puts the
addresses of their blocks into the completed ring; a round that posts nothing
and still puts nothing successfully is repeated for ever when the DMA keeps
failing.
-/
import Barley.SsnPost

namespace Barley

/-- What a round of the loop meets: which of its scatters and of its copies
succeed, and the read index of the completed ring in host memory. -/
structure SsnPostRound where
  scatter : Nat → Bool
  compl : ComplDma
  hostRidx : Nat

/-- The channel and the fifo, with `local_num`. -/
structure SsnPosting where
  chan : SsnChan
  fifo : SsnFifo
  localNum : Nat

/-- The loop goes on, or it has been left. -/
inductive SsnLoop where
  | running (s : SsnPosting)
  | left (s : SsnPosting)

section Run

variable (lim : DmaLimits)

/-- `post_num`. -/
def SsnPosting.postNum (s : SsnPosting) : Nat :=
  if s.localNum < lim.chanPostLwm then s.localNum else lim.chanPostLwm

/-- One round. -/
def ssnPostingStep (round : SsnPostRound) (s : SsnPosting) : SsnLoop :=
  if s.localNum = 0 then .left s
  else
    let posted := ssnChanPostPkt lim s.fifo round.scatter (s.postNum lim)
    let chan := { s.chan with
      compl := { s.chan.compl with ridx := round.hostRidx } }
    match ssnChanComplPut round.compl chan posted.blockAddr with
    | (.success, chan) =>
        .running
          { chan := chan
            fifo := { s.fifo with
              localRidx := add64 s.fifo.localRidx posted.pktPosted }
            localNum := sub64 s.localNum posted.pktPosted }
    | (_, chan) => .left { s with chan := chan }

/-- The loop after some rounds. -/
def ssnPostingRun (rounds : Nat → SsnPostRound) (start : SsnLoop) :
    Nat → SsnLoop
  | 0 => start
  | t + 1 =>
      match ssnPostingRun rounds start t with
      | .left s => .left s
      | .running s => ssnPostingStep lim (rounds t) s

/-- The checks before the loop. -/
def ssnPostingStart (chan : SsnChan) (fifo : SsnFifo) (flag : Bool) :
    SsnLoop :=
  let s : SsnPosting := ⟨chan, fifo, fifo.localNum⟩
  if flag then
    if fifo.localNum ≠ lim.chanPostLwm then .left s else .running s
  else if fifo.localNum = 0 then .left s else .running s

/-- `frcore_ssn_fifo_post`, after some rounds of its loop. -/
def ssnFifoPost (rounds : Nat → SsnPostRound) (chan : SsnChan)
    (fifo : SsnFifo) (flag : Bool) : Nat → SsnLoop :=
  ssnPostingRun lim rounds (ssnPostingStart lim chan fifo flag)

/-- `frcore_ssn_fifo_post_no_lock` differs in the lock only. -/
def ssnFifoPostNoLock (rounds : Nat → SsnPostRound) (chan : SsnChan)
    (fifo : SsnFifo) (flag : Bool) : Nat → SsnLoop :=
  ssnPostingRun lim rounds (ssnPostingStart lim chan fifo flag)

end Run

/-- The loop ends, since every round leaves it or brings `local_num` down. -/
structure Terminates (run : Nat → SsnLoop) : Prop where
  ends : ∃ t s, run t = .left s
  progress : ∀ t s, run t = .running s →
    (∃ next, run (t + 1) = .left next) ∨
      ∃ next, run (t + 1) = .running next ∧ next.localNum < s.localNum

section Stuck

variable (lim : DmaLimits)

/-- The first cell is of unknown type, or the first scatter that fails comes
while it is being posted. -/
def SsnFifo.NothingPosted (fifo : SsnFifo) (scatter : Nat → Bool)
    (postNum : Nat) : Prop :=
  ¬ fifo.Known lim 0 ∨ ∃ batch, FirstFailure scatter batch ∧
    ((batch + 1) * lim.pointers ≤ (fifo.pieces lim 0).length ∨
      postNum = 1 ∧ batch * lim.pointers < (fifo.pieces lim 0).length)

/-- How many addresses a round that posts nothing leaves: one for a single head
cell, which is queued before its batch fails. -/
def SsnFifo.lostHeads (fifo : SsnFifo) : Nat :=
  if (fifo.cell lim 0).type = .dmaHead ∧ 1 < lim.pointers then 1 else 0

/-- The round posts nothing, and the put of no address, or of the one of a
single head cell, succeeds. -/
structure SsnPosting.Stuck (round : SsnPostRound) (s : SsnPosting) : Prop where
  waiting : s.localNum ≠ 0
  nothing : s.fifo.NothingPosted lim round.scatter (s.postNum lim)
  sync : round.compl.ridx = true
  space : sub64 s.chan.complWidx round.hostRidx ≤
    sub64 frcDmaSsnRingBuffSize (s.fifo.lostHeads lim)
  copied : s.fifo.lostHeads lim = 1 → round.compl.first = true
  published : round.compl.widx = true

end Stuck

section PostNum

theorem postNum_le (lim : DmaLimits) (s : SsnPosting) :
    s.postNum lim ≤ s.localNum := by
  unfold SsnPosting.postNum
  split
  · exact Nat.le_refl _
  · exact Nat.le_of_not_lt ‹_›

theorem postNum_pos (lim : DmaLimits) {s : SsnPosting} (h : s.localNum ≠ 0) :
    0 < s.postNum lim := by
  unfold SsnPosting.postNum
  split
  · exact Nat.pos_of_ne_zero h
  · exact Nat.mul_pos lim.pos (by decide)

end PostNum

section Posted

variable {lim : DmaLimits} {fifo : SsnFifo} {scatter : Nat → Bool}
  {postNum : Nat}

theorem pointers_one : fifo.pointers lim 1 = fifo.pieces lim 0 := by
  rw [pointers_succ]
  rfl

theorem ssnChanPostPkt_le (lim : DmaLimits) (fifo : SsnFifo)
    (scatter : Nat → Bool) (postNum : Nat) :
    (ssnChanPostPkt lim fifo scatter postNum).pktPosted ≤ postNum := by
  have houtcome := ssnChanPostPkt_outcome lim fifo scatter postNum
  rw [ssnChanPostPkt]
  generalize ssnPostLoop lim fifo scatter postNum 0 ⟨.empty, []⟩ = posted
    at houtcome
  cases houtcome with
  | done _ _ hall _ _ => exact Nat.le_of_eq hall
  | unknown hlt _ _ _ => exact Nat.le_of_lt hlt
  | full _ hlt _ _ _ _ _ _ => exact Nat.le_of_lt hlt
  | last heq _ _ _ _ _ => exact heq ▸ Nat.le_succ _

/-- How many pointers a cell needs. -/
theorem length_pieces (cur : Nat) : (fifo.pieces lim cur).length =
    match (fifo.cell lim cur).type with
    | .dmaHead => 1
    | .dmaPayload => 2
    | _ => 0 := by
  unfold SsnFifo.pieces
  cases (fifo.cell lim cur).type <;> rfl

/-- Nothing is posted exactly when the first cell is not. -/
theorem pktPosted_eq_zero_iff (hpos : 0 < postNum) :
    (ssnChanPostPkt lim fifo scatter postNum).pktPosted = 0 ↔
      fifo.NothingPosted lim scatter postNum := by
  have houtcome := ssnChanPostPkt_outcome lim fifo scatter postNum
  rw [ssnChanPostPkt]
  generalize ssnPostLoop lim fifo scatter postNum 0 ⟨.empty, []⟩ = posted
    at houtcome
  have hfirst : ∀ count, 0 < count → (fifo.pieces lim 0).length ≤
      (fifo.pointers lim count).length := by
    intro count hcount
    rw [← pointers_one]
    exact length_pointers_le lim fifo hcount
  cases houtcome with
  | done hknown hsent hall _ _ =>
      refine iff_of_false (hall ▸ Nat.ne_of_gt hpos) ?_
      rintro (hunknown | ⟨batch, hfailure, hbatch⟩)
      · exact hunknown (hknown 0 hpos)
      · have hle := hfirst postNum hpos
        have hstep := Nat.add_one_mul batch lim.pointers
        have hlim := lim.pos
        have htrue := hsent batch (by omega)
        rw [hfailure.2] at htrue
        cases htrue
  | unknown hlt hknown hunknown hcell =>
      by_cases hzero : posted.1 = 0
      · exact iff_of_true hzero (.inl (hzero ▸ hunknown))
      · refine iff_of_false hzero ?_
        have hposted := Nat.pos_of_ne_zero hzero
        rintro (hnot | ⟨batch, hfailure, hbatch | ⟨hone, _⟩⟩)
        · exact hnot (hknown 0 hposted)
        · have hle := hfirst posted.1 hposted
          have hlength := hcell.taken.length
          have hroom := hcell.room
          have hless : batch + 1 < posted.2.dma.count + 1 := by
            refine Nat.lt_of_mul_lt_mul_right (a := lim.pointers) ?_
            rw [Nat.add_one_mul posted.2.dma.count]
            omega
          have htrue := hcell.taken.sent batch (Nat.lt_of_succ_lt_succ hless)
          rw [hfailure.2] at htrue
          cases htrue
        · omega
  | full filled hlt hknown hsome hpart hfailed hfills _ =>
      have hlength := hfailed.toHolds.length
      rw [List.length_append, hfills, ← Nat.add_one_mul] at hlength
      by_cases hzero : posted.1 = 0
      · refine iff_of_true hzero (.inr ⟨posted.2.dma.count,
          firstFailure_of_failed hfailed, .inl ?_⟩)
        rw [hzero] at hlength hpart
        have hle := hpart.length_le
        have hnone : (fifo.pointers lim 0).length = 0 := rfl
        omega
      · refine iff_of_false hzero ?_
        have hposted := Nat.pos_of_ne_zero hzero
        rintro (hnot | ⟨batch, hfailure, hbatch | ⟨hone, _⟩⟩)
        · exact hnot (hknown 0 (Nat.zero_le _))
        · obtain rfl := hfailure.unique (firstFailure_of_failed hfailed)
          have hle := hfirst posted.1 hposted
          have hsomeLen := List.length_pos_iff.mpr hsome
          omega
        · omega
  | last heq hknown hfailed hpending hroom _ =>
      have hlength := hfailed.toHolds.length
      by_cases hzero : posted.1 = 0
      · refine iff_of_true hzero (.inr ⟨posted.2.dma.count,
          firstFailure_of_failed hfailed, .inr ⟨by omega, ?_⟩⟩)
        rw [← pointers_one, ← (by omega : postNum = 1)]
        omega
      · refine iff_of_false hzero ?_
        rintro (hnot | ⟨batch, hfailure, hbatch | ⟨hone, _⟩⟩)
        · exact hnot (hknown 0 (Nat.zero_le _))
        · obtain rfl := hfailure.unique (firstFailure_of_failed hfailed)
          have hle := hfirst postNum hpos
          have hstep := Nat.add_one_mul posted.2.dma.count lim.pointers
          omega
        · omega

theorem lostHeads_of_not_head (h : (fifo.cell lim 0).type ≠ .dmaHead) :
    fifo.lostHeads lim = 0 :=
  if_neg fun hhead => h hhead.1

/-- When nothing is posted, at most the address of a lost head is left. -/
theorem length_blockAddr (hpos : 0 < postNum)
    (hnothing : fifo.NothingPosted lim scatter postNum) :
    (ssnChanPostPkt lim fifo scatter postNum).blockAddr.length =
      fifo.lostHeads lim := by
  have hzero := (pktPosted_eq_zero_iff hpos).mpr hnothing
  have houtcome := ssnChanPostPkt_outcome lim fifo scatter postNum
  rw [ssnChanPostPkt] at hzero ⊢
  generalize ssnPostLoop lim fifo scatter postNum 0 ⟨.empty, []⟩ = posted
    at houtcome hzero ⊢
  have hzero : posted.1 = 0 := hzero
  show posted.2.address.length = fifo.lostHeads lim
  cases houtcome with
  | done _ _ hall _ _ => exact absurd (hzero ▸ hall) (Nat.ne_of_lt hpos)
  | unknown _ _ hunknown hcell =>
      rw [hzero] at hunknown
      rw [hcell.addresses, hzero,
        lostHeads_of_not_head fun hhead => hunknown (.inl hhead)]
      rfl
  | full filled _ _ _ hpart hfailed hfills haddr =>
      have hlength := hfailed.toHolds.length
      rw [List.length_append, hfills, ← Nat.add_one_mul] at hlength
      rw [hzero] at hlength hpart
      have hle := hpart.length_le
      have hnone : (fifo.pointers lim 0).length = 0 := rfl
      have hmany : lim.pointers ≤ (posted.2.dma.count + 1) * lim.pointers :=
        Nat.le_mul_of_pos_left _ (Nat.succ_pos _)
      rw [haddr, hzero]
      refine (if_neg ?_).symm
      rintro ⟨hhead, hone⟩
      rw [length_pieces, hhead] at hle
      simp only at hle
      omega
  | last heq hknown hfailed hpending hroom haddr =>
      rw [haddr, heq, hzero, headAddrs_succ]
      rcases hknown 0 (Nat.zero_le _) with hhead | hpayload
      · rw [if_pos hhead, SsnFifo.lostHeads, if_pos ⟨hhead, by omega⟩]
        rfl
      · have hnot : (fifo.cell lim 0).type ≠ .dmaHead := by
          rw [hpayload]
          rintro ⟨⟩
        rw [if_neg hnot, lostHeads_of_not_head hnot]
        rfl

theorem lostHeads_le_one : fifo.lostHeads lim ≤ 1 := by
  unfold SsnFifo.lostHeads
  split
  · exact Nat.le_refl 1
  · exact Nat.zero_le 1

end Posted

section Steps

variable {lim : DmaLimits}

/-- When at most one address is put, only the first copy can move anything. -/
theorem ssnChanComplPut_few {dma : ComplDma} {chan : SsnChan}
    {buff : List Nat} (hfew : buff.length ≤ 1) :
    (ssnChanComplPut dma chan buff).1 = .success ↔
      dma.ridx = true ∧
      sub64 chan.complWidx chan.compl.ridx ≤
        sub64 frcDmaSsnRingBuffSize buff.length ∧
      (buff.length = 1 → dma.first = true) ∧ dma.widx = true := by
  have hlen1 : SsnChan.len1 chan.complWidx buff.length = buff.length := by
    have hmod : chan.complWidx % frcDmaSsnRingBuffSize <
        frcDmaSsnRingBuffSize := Nat.mod_lt _ (by decide)
    unfold SsnChan.len1 Ring.firstPiece
    split
    · omega
    · rfl
  have hone : 0 < buff.length ↔ buff.length = 1 := by omega
  unfold ssnChanComplPut
  simp only [hlen1, hone, Nat.lt_irrefl, false_and, if_false]
  split
  · rename_i hridx
    exact iff_of_false Fre.noConfusion fun h => by simp [h.1] at hridx
  · rename_i hridx
    split
    · rename_i hspace
      exact iff_of_false Fre.noConfusion fun h =>
        Nat.not_lt.mpr h.2.1 hspace
    · rename_i hspace
      split
      · rename_i hfirst
        exact iff_of_false Fre.noConfusion fun h => by
          simp [h.2.2.1 hfirst.1] at hfirst
      · rename_i hfirst
        split
        · rename_i hwidx
          exact iff_of_false Fre.noConfusion fun h => by
            simp [h.2.2.2] at hwidx
        · rename_i hwidx
          refine iff_of_true rfl ⟨?_, Nat.le_of_not_lt hspace, ?_, ?_⟩
          · simpa using hridx
          · simpa using hfirst
          · simpa using hwidx

/-- A waiting loop is stuck when nothing is posted and the put succeeds. -/
theorem stuck_iff {round : SsnPostRound} {s : SsnPosting}
    (hwaiting : s.localNum ≠ 0) : s.Stuck lim round ↔
      s.fifo.NothingPosted lim round.scatter (s.postNum lim) ∧
      (ssnChanComplPut round.compl
        { s.chan with compl := { s.chan.compl with ridx := round.hostRidx } }
        (ssnChanPostPkt lim s.fifo round.scatter
          (s.postNum lim)).blockAddr).1 = .success := by
  have hpos := postNum_pos lim hwaiting
  constructor
  · intro h
    have hlength := length_blockAddr hpos h.nothing
    refine ⟨h.nothing,
      (ssnChanComplPut_few (hlength ▸ lostHeads_le_one)).mpr ?_⟩
    rw [hlength]
    exact ⟨h.sync, h.space, h.copied, h.published⟩
  · rintro ⟨hnothing, hsuccess⟩
    have hlength := length_blockAddr hpos hnothing
    have hcopies :=
      (ssnChanComplPut_few (hlength ▸ lostHeads_le_one)).mp hsuccess
    rw [hlength] at hcopies
    exact ⟨hwaiting, hnothing, hcopies.1, hcopies.2.1, hcopies.2.2.1,
      hcopies.2.2.2⟩

theorem ssnPostingStep_success {round : SsnPostRound} {s : SsnPosting}
    {next : SsnChan} (hwaiting : s.localNum ≠ 0)
    (hput : ssnChanComplPut round.compl
      { s.chan with compl := { s.chan.compl with ridx := round.hostRidx } }
      (ssnChanPostPkt lim s.fifo round.scatter (s.postNum lim)).blockAddr =
        (.success, next)) :
    ssnPostingStep lim round s =
      .running
        { chan := next
          fifo := { s.fifo with
            localRidx := add64 s.fifo.localRidx
              (ssnChanPostPkt lim s.fifo round.scatter
                (s.postNum lim)).pktPosted }
          localNum := sub64 s.localNum
            (ssnChanPostPkt lim s.fifo round.scatter
              (s.postNum lim)).pktPosted } := by
  rw [ssnPostingStep, if_neg hwaiting]
  simp only [hput]

/-- The loop is left, or `local_num` has come down. -/
def SsnLoop.Below (count : Nat) : SsnLoop → Prop
  | .left _ => True
  | .running next => next.localNum < count

/-- One round makes progress exactly when it is not stuck. -/
theorem ssnPostingStep_below_iff {round : SsnPostRound} {s : SsnPosting}
    (hlt : s.localNum < 2 ^ 64) :
    (ssnPostingStep lim round s).Below s.localNum ↔ ¬ s.Stuck lim round := by
  by_cases hwaiting : s.localNum = 0
  · rw [ssnPostingStep, if_pos hwaiting]
    exact iff_of_true trivial fun h => h.waiting hwaiting
  · rw [stuck_iff hwaiting, ssnPostingStep, if_neg hwaiting]
    have hpos := postNum_pos lim hwaiting
    have hposted : (ssnChanPostPkt lim s.fifo round.scatter
        (s.postNum lim)).pktPosted = 0 ↔ _ := pktPosted_eq_zero_iff hpos
    have hle := Nat.le_trans (ssnChanPostPkt_le lim s.fifo round.scatter
      (s.postNum lim)) (postNum_le lim s)
    simp only
    split
    · rename_i hsuccess
      rw [hsuccess, ← hposted, and_iff_left rfl]
      show sub64 s.localNum _ < s.localNum ↔ _
      rw [sub64_eq hle hlt]
      omega
    · rename_i hfailed heq
      refine iff_of_true trivial fun h => ?_
      rw [heq] at h
      exact hfailed h.2

/-- `local_num` is a `uint64_t` throughout. -/
theorem ssnPostingRun_lt {rounds : Nat → SsnPostRound} {start : SsnLoop}
    (hstart : ∀ s, start = .running s → s.localNum < 2 ^ 64) {t : Nat}
    {s : SsnPosting} (hrun : ssnPostingRun lim rounds start t = .running s) :
    s.localNum < 2 ^ 64 := by
  cases t with
  | zero => exact hstart s hrun
  | succ t =>
      rw [ssnPostingRun] at hrun
      split at hrun
      · cases hrun
      · unfold ssnPostingStep at hrun
        split at hrun
        · cases hrun
        · simp only at hrun
          split at hrun
          · cases hrun
            exact sub64_lt _ _
          · cases hrun

/-- A run that makes progress in every round ends. -/
theorem ssnPostingRun_ends {rounds : Nat → SsnPostRound} {start : SsnLoop}
    (hbelow : ∀ t s, ssnPostingRun lim rounds start t = .running s →
      (ssnPostingRun lim rounds start (t + 1)).Below s.localNum) :
    ∃ t s, ssnPostingRun lim rounds start t = .left s := by
  have hbound : ∀ count t s, ssnPostingRun lim rounds start t = .running s →
      s.localNum = count →
      ∃ t s, ssnPostingRun lim rounds start t = .left s := by
    intro count
    induction count using Nat.strongRecOn with
    | ind count ih =>
        rintro t s hrun rfl
        have hnext := hbelow t s hrun
        cases hstep : ssnPostingRun lim rounds start (t + 1) with
        | left next => exact ⟨t + 1, next, hstep⟩
        | running next =>
            rw [hstep] at hnext
            exact ih next.localNum hnext (t + 1) next hstep rfl
  cases hstart : ssnPostingRun lim rounds start 0 with
  | left s => exact ⟨0, s, hstart⟩
  | running s => exact hbound s.localNum 0 s hstart rfl

theorem ssnPostingRun_terminates_iff {rounds : Nat → SsnPostRound}
    {start : SsnLoop}
    (hstart : ∀ s, start = .running s → s.localNum < 2 ^ 64) :
    Terminates (ssnPostingRun lim rounds start) ↔
      ∀ t s, ssnPostingRun lim rounds start t = .running s →
        ¬ s.Stuck lim (rounds t) := by
  have hstep : ∀ t s, ssnPostingRun lim rounds start t = .running s →
      ((ssnPostingRun lim rounds start (t + 1)).Below s.localNum ↔
        ¬ s.Stuck lim (rounds t)) := by
    intro t s hrun
    rw [ssnPostingRun, hrun]
    exact ssnPostingStep_below_iff (ssnPostingRun_lt hstart hrun)
  constructor
  · intro h t s hrun
    refine (hstep t s hrun).mp ?_
    rcases h.progress t s hrun with ⟨next, hnext⟩ | ⟨next, hnext, hless⟩
    · rw [hnext]
      trivial
    · rw [hnext]
      exact hless
  · intro h
    have hbelow := fun t s hrun => (hstep t s hrun).mpr (h t s hrun)
    refine ⟨ssnPostingRun_ends hbelow, fun t s hrun => ?_⟩
    have hnext := hbelow t s hrun
    cases hloop : ssnPostingRun lim rounds start (t + 1) with
    | left next => exact .inl ⟨next, rfl⟩
    | running next =>
        rw [hloop] at hnext
        exact .inr ⟨next, rfl, hnext⟩

theorem ssnPostingStart_lt {chan : SsnChan} {fifo : SsnFifo} {flag : Bool}
    {s : SsnPosting} (h : ssnPostingStart lim chan fifo flag = .running s) :
    s.localNum < 2 ^ 64 := by
  unfold ssnPostingStart at h
  simp only at h
  split at h
  · split at h
    · cases h
    · cases h
      exact sub64_lt _ _
  · split at h
    · cases h
    · cases h
      exact sub64_lt _ _

end Steps

/-- For every content of the fifo and of the channel and every behaviour of the
DMA and of the host, both functions end, with progress in every round, exactly
when no round is stuck. -/
theorem ssnFifoPost_terminates_iff (lim : DmaLimits)
    (rounds : Nat → SsnPostRound) (chan : SsnChan) (fifo : SsnFifo)
    (flag : Bool) :
    (Terminates (ssnFifoPost lim rounds chan fifo flag) ↔
      ∀ t s, ssnFifoPost lim rounds chan fifo flag t = .running s →
        ¬ s.Stuck lim (rounds t)) ∧
    (Terminates (ssnFifoPostNoLock lim rounds chan fifo flag) ↔
      ∀ t s, ssnFifoPostNoLock lim rounds chan fifo flag t = .running s →
        ¬ s.Stuck lim (rounds t)) :=
  ⟨ssnPostingRun_terminates_iff fun _ => ssnPostingStart_lt,
    ssnPostingRun_terminates_iff fun _ => ssnPostingStart_lt⟩

section Endless

/-- One payload cell waits. -/
def onePayload : SsnFifo :=
  ⟨1, 0, fun _ => { someHead with type := .dmaPayload }, fun _ => 0, 0⟩

/-- Both rings are empty. -/
def emptySsnChan : SsnChan :=
  ⟨⟨0, 0, fun _ => 0⟩, ⟨0, 0, fun _ => 0⟩, 0, 0, 0, 0⟩

/-- Scattering fails, and the copies for the completed ring succeed. -/
def failingRound : SsnPostRound := ⟨fun _ => false, .ok, 0⟩

theorem ssnChanComplPut_nil {chan : SsnChan} (hwidx : chan.complWidx = 0)
    (hridx : chan.compl.ridx = 0) :
    ∃ next, ssnChanComplPut .ok chan [] = (.success, next) ∧
      next.complWidx = 0 := by
  have hfits : sub64 chan.complWidx chan.compl.ridx ≤
      sub64 frcDmaSsnRingBuffSize 0 := by
    rw [hwidx, hridx]
    decide
  have hsuccess := (@ssnChanComplPut_few .ok chan [] (Nat.zero_le 1)).mpr
    ⟨rfl, hfits, nofun, rfl⟩
  refine ⟨(ssnChanComplPut .ok chan []).2, Prod.ext hsuccess rfl, ?_⟩
  have hspace : ¬ sub64 frcDmaSsnRingBuffSize 0 < sub64 0 0 := by decide
  simp [ssnChanComplPut, hwidx, hridx, hspace, ComplDma.ok, add64]

/-- The cell is still waiting. -/
structure SsnPosting.StillWaiting (s : SsnPosting) : Prop where
  fifo : s.fifo = onePayload
  localNum : s.localNum = 1
  complWidx : s.chan.complWidx = 0

theorem stillWaiting_step {s : SsnPosting} (h : s.StillWaiting) :
    ∃ next, ssnPostingStep ⟨14, by decide⟩ failingRound s = .running next ∧
      next.StillWaiting := by
  have hnum : s.postNum ⟨14, by decide⟩ = 1 := by
    unfold SsnPosting.postNum
    rw [h.localNum]
    decide
  have hnothing : s.fifo.NothingPosted ⟨14, by decide⟩ failingRound.scatter
      (s.postNum ⟨14, by decide⟩) := by
    rw [h.fifo, hnum]
    exact .inr ⟨0, ⟨fun _ hlt => absurd hlt (Nat.not_lt_zero _), rfl⟩,
      .inr ⟨rfl, by decide⟩⟩
  have hpos : 0 < s.postNum ⟨14, by decide⟩ := hnum ▸ Nat.one_pos
  have hzero := (pktPosted_eq_zero_iff hpos).mpr hnothing
  have hnone : s.fifo.lostHeads ⟨14, by decide⟩ = 0 := by
    rw [h.fifo]
    exact lostHeads_of_not_head nofun
  have hnil := List.length_eq_zero_iff.mp
    ((length_blockAddr hpos hnothing).trans hnone)
  let chan : SsnChan := { s.chan with
    compl := { s.chan.compl with ridx := failingRound.hostRidx } }
  obtain ⟨next, hput, hwidx⟩ := @ssnChanComplPut_nil chan h.complWidx rfl
  have hwaiting : s.localNum ≠ 0 := by
    rw [h.localNum]
    exact Nat.one_ne_zero
  refine ⟨_, ssnPostingStep_success hwaiting (hnil.symm ▸ hput), ?_, ?_,
    hwidx⟩
  · rw [hzero, h.fifo]
    rfl
  · rw [hzero, h.localNum]
    rfl

/-- While scattering fails, a single cell keeps the loop running. -/
theorem onePayload_endless :
    ¬ ∀ (lim : DmaLimits) (rounds : Nat → SsnPostRound) (chan : SsnChan)
      (fifo : SsnFifo) (flag : Bool), fifo.localNum ≤ lim.coreFifoNum →
      Terminates (ssnFifoPost lim rounds chan fifo flag) ∧
      Terminates (ssnFifoPostNoLock lim rounds chan fifo flag) := by
  intro hends
  have hloop := (hends ⟨14, by decide⟩ (fun _ => failingRound) emptySsnChan
    onePayload false (by decide)).1
  have hround : ∀ t, ∃ s, ssnFifoPost ⟨14, by decide⟩
      (fun _ => failingRound) emptySsnChan onePayload false t = .running s ∧
        s.StillWaiting := by
    intro t
    induction t with
    | zero => exact ⟨⟨emptySsnChan, onePayload, 1⟩, rfl, rfl, rfl, rfl⟩
    | succ t ih =>
        obtain ⟨s, hrun, hwaiting⟩ := ih
        obtain ⟨next, hstep, hnext⟩ := stillWaiting_step hwaiting
        refine ⟨next, ?_, hnext⟩
        rw [ssnFifoPost] at hrun ⊢
        rw [ssnPostingRun, hrun]
        exact hstep
  obtain ⟨t, s, hleft⟩ := hloop.ends
  obtain ⟨_, hrunning, _⟩ := hround t
  rw [hrunning] at hleft
  cases hleft

end Endless

end Barley
