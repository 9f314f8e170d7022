/-
When completion means written.  A call of `fifo_post` shows the host only
blocks it has written, skips only packets it has written and loses no block,
exactly if none of its DMA operations fails once block addresses are taken
from the available ring.
-/
import Barley.ChanCalls
import Barley.ChanSafety
import Barley.FifoPost
import Mathlib.Data.List.GetD
import Mathlib.Data.List.Nodup

namespace Barley

/-- What `fifo_add` keeps: the fifo never holds more packets than cells. -/
def SimpleFifo.Ok (lim : DmaLimits) (fifo : SimpleFifo) : Prop :=
  fifo.localNum ≤ lim.coreFifoNum

theorem SimpleFifo.Ok.add {lim : DmaLimits} {fifo : SimpleFifo}
    (h : fifo.Ok lim) (hdr info payload : List UInt8) :
    (fifo.add lim hdr info payload).2.Ok lim := by
  simp only [SimpleFifo.add]
  split
  · exact h
  · split
    · exact h
    · have hfull : fifo.localNum < lim.coreFifoNum := Nat.not_le.mp ‹_›
      simp only [SimpleFifo.Ok, SimpleFifo.localNum, sub64, add64] at hfull ⊢
      omega

/-- The call finds packets to post and does not rest. -/
def PostRuns (lim : DmaLimits) (resting : Nat → Bool) (fifo : SimpleFifo)
    (exhaust flag : Bool) : Prop :=
  (if flag then fifo.localNum = lim.chanPostLwm else fifo.localNum ≠ 0) ∧
    (exhaust && resting 0) = false

section Rounds

variable {lim : DmaLimits} {dma : Nat → PostDma} {resting : Nat → Bool}
  {chan : SimpleChan} {fifo : SimpleFifo} {exhaust flag : Bool}

theorem PostRuns.localNum_ne (h : PostRuns lim resting fifo exhaust flag) :
    fifo.localNum ≠ 0 := by
  have hpos := lim.pos
  obtain ⟨hflag, -⟩ := h
  cases flag with
  | false => exact hflag
  | true =>
      have hlwm : fifo.localNum = lim.chanPostLwm := hflag
      rw [hlwm, DmaLimits.chanPostLwm]
      omega

theorem fifoPost_of_runs (h : PostRuns lim resting fifo exhaust flag) :
    fifoPost lim dma resting chan fifo exhaust flag =
      fifoPostLoop lim dma resting fifo.localNum 0 ⟨chan, fifo, exhaust, []⟩
        fifo.localNum := by
  have hne := h.localNum_ne
  obtain ⟨hflag, -⟩ := h
  cases flag with
  | false => exact if_neg hne
  | true =>
      have hlwm : fifo.localNum = lim.chanPostLwm := hflag
      simp only [fifoPost, if_true]
      exact if_neg (not_not.mpr hlwm)

/-- The loop goes on only with packets that are left. -/
theorem fifoPostLoop_zero (fuel round : Nat) (s : PostState) :
    fifoPostLoop lim dma resting fuel round s 0 = s := by
  cases fuel with
  | zero => rfl
  | succ fuel => exact if_pos rfl

/-- A call that does not run changes nothing. -/
theorem fifoPost_idle (h : ¬ PostRuns lim resting fifo exhaust flag) :
    fifoPost lim dma resting chan fifo exhaust flag =
      ⟨chan, fifo, exhaust, []⟩ := by
  have hrest : ∀ count, (exhaust && resting 0) = true →
      fifoPostLoop lim dma resting count 0 ⟨chan, fifo, exhaust, []⟩ count =
        ⟨chan, fifo, exhaust, []⟩ := by
    intro count hrest
    cases count with
    | zero => rfl
    | succ count =>
        rw [fifoPostLoop, if_neg (Nat.succ_ne_zero count)]
        exact if_pos hrest
  unfold fifoPost
  cases flag with
  | true =>
      rw [if_pos rfl]
      split
      · rfl
      · refine hrest _ ?_
        by_contra hnot
        exact h ⟨not_not.mp ‹_›, by simpa using hnot⟩
  | false =>
      rw [if_neg Bool.false_ne_true]
      split
      · rfl
      · refine hrest _ ?_
        by_contra hnot
        exact h ⟨‹_›, by simpa using hnot⟩

variable (hruns : PostRuns lim resting fifo exhaust flag)
  (hfifo : fifo.Ok lim)

include hruns hfifo

/-- One round posts the whole fifo. -/
theorem fifoPost_round :
    fifoPost lim dma resting chan fifo exhaust flag =
      match chanAvailGet (dma 0).avail chan fifo.localNum with
      | (.nospace, chan, _) => ⟨chan, fifo, true, []⟩
      | (.success, chan, idxBuff) =>
          let written := (chanPostPkt lim fifo (dma 0).scatter idxBuff
            fifo.localNum).2
          match chanComplPut (dma 0).compl chan idxBuff with
          | (.success, chan) =>
              ⟨chan, { fifo with
                localRidx := add64 fifo.localRidx fifo.localNum }, false,
                written⟩
          | (_, chan) => ⟨chan, fifo, false, written⟩
      | (_, chan, _) => ⟨chan, fifo, exhaust, []⟩ := by
  have hne := hruns.localNum_ne
  obtain ⟨count, hcount⟩ := Nat.exists_eq_succ_of_ne_zero hne
  have hpost : (if fifo.localNum < lim.chanPostLwm then fifo.localNum
      else lim.chanPostLwm) = fifo.localNum := by
    split
    · rfl
    · exact Nat.le_antisymm (Nat.not_lt.mp ‹_›) hfifo
  have hround : fifoPostLoop lim dma resting (count + 1) 0
      ⟨chan, fifo, exhaust, []⟩ fifo.localNum =
        fifoPost lim dma resting chan fifo exhaust flag := by
    rw [fifoPost_of_runs hruns, hcount]
  rw [fifoPostLoop, if_neg hne] at hround
  simp only [hpost, hruns.2, Bool.false_eq_true, if_false, List.nil_append,
    Nat.sub_self, fifoPostLoop_zero] at hround
  exact hround.symm

/-- A call that takes no addresses posts nothing. -/
theorem fifoPost_of_not_takes
    (htakes : ¬ (dma 0).avail.Takes chan fifo.localNum) :
    ∃ chan' exhaust', (chan' = chan ∨ chan' = chan.syncAvail) ∧
      fifoPost lim dma resting chan fifo exhaust flag =
        ⟨chan', fifo, exhaust', []⟩ := by
  obtain ⟨hcode, hchan⟩ := chanAvailGet_fails htakes
  rw [fifoPost_round hruns hfifo]
  split
  · rw [‹chanAvailGet _ _ _ = _›] at hchan
    exact ⟨_, _, hchan, rfl⟩
  · rw [‹chanAvailGet _ _ _ = _›] at hcode
    exact absurd rfl hcode
  · rw [‹chanAvailGet _ _ _ = _›] at hchan
    exact ⟨_, _, hchan, rfl⟩

variable (hsize : fifo.localNum ≤ frcSimpleRingBuffSize)
  (htakes : (dma 0).avail.Takes chan fifo.localNum)

include hsize htakes

/-- Addresses are taken, but the host does not learn of it. -/
theorem fifoPost_of_not_ridx (hridx : (dma 0).avail.ridx = false) :
    fifoPost lim dma resting chan fifo exhaust flag =
      ⟨chan.syncAvail.storeAvail fifo.localNum, fifo, exhaust, []⟩ := by
  rw [fifoPost_round hruns hfifo, chanAvailGet_takes hsize htakes, hridx]
  rfl

theorem fifoPost_of_fails (hridx : (dma 0).avail.ridx = true)
    (hfails : (chanComplPut (dma 0).compl (chan.taken fifo.localNum)
      (chan.head fifo.localNum)).1 ≠ .success) :
    fifoPost lim dma resting chan fifo exhaust flag =
      ⟨(chanComplPut (dma 0).compl (chan.taken fifo.localNum)
          (chan.head fifo.localNum)).2, fifo, false,
        (chanPostPkt lim fifo (dma 0).scatter (chan.head fifo.localNum)
          fifo.localNum).2⟩ := by
  rw [fifoPost_round hruns hfifo, chanAvailGet_takes hsize htakes, hridx]
  simp only [if_true]

theorem fifoPost_of_succeeds (hridx : (dma 0).avail.ridx = true)
    {chan' : SimpleChan}
    (hputs : chanComplPut (dma 0).compl (chan.taken fifo.localNum)
      (chan.head fifo.localNum) = (.success, chan')) :
    fifoPost lim dma resting chan fifo exhaust flag =
      ⟨chan', { fifo with
          localRidx := add64 fifo.localRidx fifo.localNum }, false,
        (chanPostPkt lim fifo (dma 0).scatter (chan.head fifo.localNum)
          fifo.localNum).2⟩ := by
  rw [fifoPost_round hruns hfifo, chanAvailGet_takes hsize htakes, hridx]
  simp only [if_true, hputs]

end Rounds

/-- The addresses that the next calls of `avail_get` find. -/
def SimpleChan.takeable (chan : SimpleChan) : List Nat :=
  Ring.window frcSimpleRingBuffSize chan.avail.buff chan.availRidx
    (sub64 chan.avail.widx chan.availRidx)

/-- What a call that starts from `chan` and `fifo` and ends in `s` promises.
The address at distance `k` behind the old write index that the host sees
stands for the cell at distance `k` behind the old head.  An address is in the
completed ring if the host can take it from there. -/
structure PostedMeansWritten (lim : DmaLimits) (chan : SimpleChan)
    (fifo : SimpleFifo) (s : PostState) : Prop where
  visible : ∀ k addr,
    (Ring.window frcSimpleRingBuffSize s.chan.compl.buff chan.compl.widx
      (sub64 s.chan.compl.widx chan.compl.widx))[k]? = some addr →
    fifo.entry lim addr k ∈ s.written
  skipped : ∀ k, k < sub64 s.fifo.localRidx fifo.localRidx →
    ∃ addr, fifo.entry lim addr k ∈ s.written
  kept : ∀ addr ∈ chan.head (sub64 s.chan.availRidx chan.availRidx),
    addr ∈ s.chan.compl.unread ∨ addr ∈ s.chan.takeable

/-- A channel between two transfers: the cores' copies of their own indexes
are those in host memory, the rings hold different addresses, and together no
more than one ring has slots. -/
structure SimpleChan.Ready (chan : SimpleChan) : Prop where
  availRidx : chan.availRidx = chan.avail.ridx
  complWidx : chan.complWidx = chan.compl.widx
  availLe : chan.avail.ridx ≤ chan.avail.widx
  complLe : chan.compl.ridx ≤ chan.compl.widx
  room : (chan.avail.widx - chan.avail.ridx) +
    (chan.compl.widx - chan.compl.ridx) ≤ frcSimpleRingBuffSize
  availLt : chan.avail.widx < 2 ^ 64
  complLt : chan.compl.widx + frcSimpleRingBuffSize < 2 ^ 64
  distinct : (chan.avail.unread ++ chan.compl.unread).Nodup
  word : ∀ addr ∈ chan.avail.unread, addr < 2 ^ 64

/-- If the call takes addresses, none of its later DMA operations fails. -/
def PostSound (lim : DmaLimits) (dma : Nat → PostDma) (resting : Nat → Bool)
    (chan : SimpleChan) (fifo : SimpleFifo) (exhaust flag : Bool) : Prop :=
  PostRuns lim resting fifo exhaust flag →
    (dma 0).avail.Takes chan fifo.localNum →
      (dma 0).avail.ridx = true ∧
      (∀ batch, batch * lim.pointers < fifo.localNum →
        (dma 0).scatter batch = true) ∧
      (dma 0).compl.Puts chan fifo.localNum

section Ready

variable {chan : SimpleChan} {number : Nat}

theorem SimpleChan.Ready.availLen_eq (h : chan.Ready) :
    chan.syncAvail.availLen = chan.avail.widx - chan.avail.ridx := by
  rw [SimpleChan.availLen, SimpleChan.syncAvail, h.availRidx,
    sub64_eq h.availLe h.availLt]

/-- Number of addresses that a core can take. -/
theorem SimpleChan.Ready.le_size (h : chan.Ready)
    (hlen : number ≤ chan.syncAvail.availLen) :
    number ≤ frcSimpleRingBuffSize := by
  have hroom := h.room
  rw [h.availLen_eq] at hlen
  omega

theorem SimpleChan.Ready.availRidx_add (h : chan.Ready)
    (hlen : number ≤ chan.syncAvail.availLen) :
    add64 chan.availRidx number = chan.avail.ridx + number := by
  have hle := h.availLe
  have hlt := h.availLt
  rw [h.availLen_eq] at hlen
  rw [h.availRidx, add64_eq (by omega)]

theorem SimpleChan.Ready.complRoom (h : chan.Ready)
    (hlen : number ≤ chan.syncAvail.availLen) :
    chan.compl.widx + number ≤ chan.compl.ridx + frcSimpleRingBuffSize := by
  have hroom := h.room
  have hle := h.complLe
  rw [h.availLen_eq] at hlen
  omega

/-- The taken addresses, followed by those that stay. -/
theorem SimpleChan.Ready.unread_split (h : chan.Ready)
    (hlen : number ≤ chan.syncAvail.availLen) :
    chan.avail.unread = chan.head number ++
      Ring.window frcSimpleRingBuffSize chan.avail.buff
        (chan.avail.ridx + number)
        (chan.avail.widx - (chan.avail.ridx + number)) := by
  rw [h.availLen_eq] at hlen
  rw [RingBuff.unread, SimpleChan.head, h.availRidx,
    sub64_eq h.availLe h.availLt, ← Ring.window_append]
  congr 1
  omega

theorem SimpleChan.Ready.complFull_eq_false (h : chan.Ready)
    (hlen : number ≤ chan.syncAvail.availLen) :
    (chan.taken number).syncCompl.complFull number = false := by
  have hsize : frcSimpleRingBuffSize < 2 ^ 64 := by decide
  have hroom := h.complRoom hlen
  have hle := h.complLe
  have hlt := h.complLt
  have hused : sub64 chan.complWidx chan.compl.ridx =
      chan.compl.widx - chan.compl.ridx := by
    rw [h.complWidx, sub64_eq hle (by omega)]
  have hfree : sub64 frcSimpleRingBuffSize number =
      frcSimpleRingBuffSize - number := sub64_eq (h.le_size hlen) hsize
  simp only [SimpleChan.complFull, SimpleChan.syncCompl, SimpleChan.taken,
    SimpleChan.publishAvail, SimpleChan.storeAvail, SimpleChan.syncAvail,
    hused, hfree, decide_eq_false_iff_not]
  omega

/-- Addresses that are taken and not put into the completed ring are lost. -/
theorem SimpleChan.Ready.not_kept (h : chan.Ready) (hpos : number ≠ 0)
    (hlen : number ≤ chan.syncAvail.availLen) {chan' : SimpleChan}
    (hbuff : chan'.avail.buff = chan.avail.buff)
    (hwidx : chan'.avail.widx = chan.avail.widx)
    (hridx : chan'.availRidx = add64 chan.availRidx number)
    (hcompl : chan'.compl.unread = chan.compl.unread) :
    ¬ ∀ addr ∈ chan.head (sub64 chan'.availRidx chan.availRidx),
      addr ∈ chan'.compl.unread ∨ addr ∈ chan'.takeable := by
  intro hkept
  have hadd := h.availRidx_add hlen
  have hsplit := h.unread_split hlen
  have hlt := h.availLt
  have hleft := hlen
  rw [h.availLen_eq] at hleft
  rw [hadd] at hridx
  have hcount : sub64 chan'.availRidx chan.availRidx = number := by
    rw [hridx, h.availRidx, sub64_eq (by omega) (by omega)]
    omega
  have htakeable : chan'.takeable =
      Ring.window frcSimpleRingBuffSize chan.avail.buff
        (chan.avail.ridx + number)
        (chan.avail.widx - (chan.avail.ridx + number)) := by
    rw [SimpleChan.takeable, hbuff, hwidx, hridx,
      sub64_eq (by omega) hlt]
  have hdistinct := h.distinct
  rw [hsplit, List.nodup_append, List.nodup_append] at hdistinct
  obtain ⟨⟨-, -, hstay⟩, -, hother⟩ := hdistinct
  have hlength : 0 < (chan.head number).length := by
    rw [SimpleChan.head, Ring.length_window]
    omega
  obtain ⟨addr, hmem⟩ := List.exists_mem_of_length_pos hlength
  rw [hcount, hcompl, htakeable] at hkept
  rcases hkept addr hmem with hin | hin
  · exact hother addr (List.mem_append_left _ hmem) addr hin rfl
  · exact hstay addr hmem addr hin rfl

theorem SimpleChan.Ready.unread_eq (h : chan.Ready)
    (hlen : number ≤ chan.syncAvail.availLen) {chan' : SimpleChan}
    (hframe : ComplFrame number (chan.taken number) chan')
    (hwidx : chan'.compl.widx = chan.compl.widx) :
    chan'.compl.unread = chan.compl.unread := by
  have hle := h.complLe
  have hlt := h.complLt
  have hridx : chan'.compl.ridx = chan.compl.ridx := hframe.ridx
  have hwrites : Ring.Writes frcSimpleRingBuffSize chan.complWidx number
      chan.compl.buff chan'.compl.buff := hframe.writes
  rw [RingBuff.unread, RingBuff.unread, hridx, hwidx,
    sub64_eq hle (by omega)]
  refine hwrites.window_eq ?_ ?_
  · rw [h.complWidx]
    omega
  · rw [h.complWidx]
    exact h.complRoom hlen

/-- A call of `compl_put` that succeeds shows the host its addresses, and
nothing else. -/
theorem SimpleChan.Ready.complPut (h : chan.Ready)
    (hlen : number ≤ chan.syncAvail.availLen) {dma : ComplDma}
    (hputs : dma.Puts chan number) :
    ∃ chan', chanComplPut dma (chan.taken number) (chan.head number) =
        (.success, chan') ∧
      Ring.window frcSimpleRingBuffSize chan'.compl.buff chan.compl.widx
        (sub64 chan'.compl.widx chan.compl.widx) = chan.head number ∧
      chan'.availRidx = add64 chan.availRidx number ∧
      ∀ addr ∈ chan.head number, addr ∈ chan'.compl.unread := by
  have hlength : (chan.head number).length = number :=
    Ring.length_window _ _ _ _
  have hroom := h.complFull_eq_false hlen
  have hsize := h.le_size hlen
  have hle := h.complLe
  have hlt := h.complLt
  rw [← hlength] at hputs hroom
  have hput : chanComplPut dma (chan.taken number) (chan.head number) = _ :=
    chanComplPut_puts _ _ _ hputs (hlength ▸ hroom)
  have hbulk : (chan.head number).length ≤ frcSimpleRingBuffSize := by omega
  have hframe := complBulk_frame (chan.taken number).syncCompl
    (chan.head number) hbulk
  have hindexes := complBulk_indexes (chan.taken number).syncCompl
    (chan.head number)
  have hwindow := complBulk_window (chan.taken number).syncCompl
    (chan.head number) hbulk
  have hcompl : (chan.taken number).syncCompl.complWidx = chan.compl.widx :=
    h.complWidx
  rw [hlength, hcompl] at hwindow
  rw [hcompl] at hindexes
  rw [hlength] at hput
  refine ⟨_, hput, ?_, hframe.availRidx, ?_⟩
  all_goals
    simp only [SimpleChan.publishCompl, SimpleChan.storeCompl, hindexes.1,
      add64_eq (by omega : chan.compl.widx + number < 2 ^ 64)]
  · rw [sub64_eq (Nat.le_add_right _ _) (by omega), Nat.add_sub_cancel_left]
    exact hwindow
  · intro addr hmem
    have hridx : ((chan.taken number).syncCompl.complBulk
        (chan.head number)).compl.ridx = chan.compl.ridx := hframe.ridx
    have hcount : sub64 (chan.compl.widx + number) chan.compl.ridx =
        (chan.compl.widx - chan.compl.ridx) + number := by
      rw [sub64_eq (by omega) (by omega)]
      omega
    rw [RingBuff.unread, hridx, hcount, Ring.window_append,
      Nat.add_sub_cancel' hle, hwindow]
    exact List.mem_append_right _ hmem

end Ready

section Written

variable {lim : DmaLimits} {dma : Nat → PostDma} {resting : Nat → Bool}
  {chan : SimpleChan} {fifo : SimpleFifo} {exhaust flag : Bool}

/-- The promise of a call that moves no index. -/
theorem PostedMeansWritten.of_same {chan' : SimpleChan} {exhaust' : Bool}
    (hwidx : chan'.compl.widx = chan.compl.widx)
    (hridx : chan'.availRidx = chan.availRidx) :
    PostedMeansWritten lim chan fifo ⟨chan', fifo, exhaust', []⟩ where
  visible := by
    intro k addr hget
    rw [hwidx, sub64_self] at hget
    cases hget
  skipped := by
    intro k hk
    rw [sub64_self] at hk
    exact absurd hk (Nat.not_lt_zero k)
  kept := by
    intro addr hmem
    rw [hridx, sub64_self] at hmem
    cases hmem

/-- Every cell is written if no scatter fails. -/
theorem chanPostPkt_written (fifo : SimpleFifo) {scatter : Nat → Bool}
    (idxBuff : List Nat) {k count : Nat} (hk : k < count)
    (hall : ∀ batch, batch * lim.pointers < count → scatter batch = true) :
    fifo.entry lim (idxBuff.getD k 0) k ∈
      (chanPostPkt lim fifo scatter idxBuff count).2 := by
  obtain ⟨posted, -, hpost, hiff⟩ :=
    chanPostPkt_spec lim fifo scatter idxBuff count
  have hposted := hiff.mpr hall
  rw [hpost, hposted, postEntries, List.mem_map]
  exact ⟨k, List.mem_range.mpr hk, by rw [Nat.zero_add]⟩

theorem posted_of_sound (hchan : chan.Ready) (hfifo : fifo.Ok lim)
    (hsound : PostSound lim dma resting chan fifo exhaust flag) :
    PostedMeansWritten lim chan fifo
      (fifoPost lim dma resting chan fifo exhaust flag) := by
  by_cases hruns : PostRuns lim resting fifo exhaust flag
  · by_cases htakes : (dma 0).avail.Takes chan fifo.localNum
    · obtain ⟨hridx, hall, hputs⟩ := hsound hruns htakes
      have hlen := htakes.2.1
      have hsize := hchan.le_size hlen
      obtain ⟨chan', hput, hvisible, hback, hin⟩ := hchan.complPut hlen hputs
      have hnum : fifo.localNum < 2 ^ 64 := sub64_lt _ _
      have hlength : (chan.head fifo.localNum).length = fifo.localNum :=
        Ring.length_window _ _ _ _
      rw [fifoPost_of_succeeds hruns hfifo hsize htakes hridx hput]
      refine ⟨?_, ?_, ?_⟩
      · intro k addr hget
        rw [hvisible] at hget
        obtain ⟨hk, rfl⟩ := List.getElem?_eq_some_iff.mp hget
        have hwritten := chanPostPkt_written fifo (chan.head fifo.localNum)
          (hlength ▸ hk) hall
        rw [List.getD_eq_getElem _ _ hk] at hwritten
        exact hwritten
      · intro k hk
        rw [sub64_add64 _ hnum] at hk
        exact ⟨_, chanPostPkt_written fifo _ hk hall⟩
      · intro addr hmem
        rw [hback, sub64_add64 _ hnum] at hmem
        exact .inl (hin addr hmem)
    · obtain ⟨chan', exhaust', hsame, hpost⟩ :=
        fifoPost_of_not_takes hruns hfifo htakes
      rw [hpost]
      rcases hsame with rfl | rfl
      · exact .of_same rfl rfl
      · exact .of_same rfl rfl
  · rw [fifoPost_idle hruns]
    exact .of_same rfl rfl

/-- A cell whose scatter did not succeed is not among those written, even
though its address is one of the taken. -/
theorem SimpleChan.Ready.entry_not_mem (hchan : chan.Ready) {number k : Nat}
    (hlen : number ≤ chan.syncAvail.availLen) (hk : k < number)
    (hentry : fifo.entry lim ((chan.head number).getD k 0) k ∈
      postEntries lim fifo (chan.head number) 0 k) : False := by
  rw [postEntries, List.mem_map] at hentry
  obtain ⟨i, hi, hsame⟩ := hentry
  rw [List.mem_range] at hi
  rw [Nat.zero_add] at hsame
  have hlength : (chan.head number).length = number :=
    Ring.length_window _ _ _ _
  have hik : i < (chan.head number).length := by omega
  have hkk : k < (chan.head number).length := by omega
  have haddr := congrArg ScatterEntry.remoteAddr hsame
  simp only [SimpleFifo.entry] at haddr
  rw [List.getD_eq_getElem _ _ hik, List.getD_eq_getElem _ _ hkk] at haddr
  have hsplit := hchan.unread_split hlen
  have hword : ∀ addr ∈ chan.head number, addr < 2 ^ 64 := fun addr hmem =>
    hchan.word addr (hsplit ▸ List.mem_append_left _ hmem)
  have hi64 := hword _ (List.getElem_mem hik)
  have hk64 := hword _ (List.getElem_mem hkk)
  have heq : (chan.head number)[i] = (chan.head number)[k] := by
    simp only [add64, frcDmaOffset] at haddr
    omega
  have hnodup : (chan.head number).Nodup := by
    have hdistinct := hchan.distinct
    rw [hsplit, List.nodup_append, List.nodup_append] at hdistinct
    exact hdistinct.1.1
  have hindex := (List.Nodup.getElem_inj_iff hnodup).mp heq
  omega

theorem sound_of_posted (hchan : chan.Ready) (hfifo : fifo.Ok lim)
    (hposted : PostedMeansWritten lim chan fifo
      (fifoPost lim dma resting chan fifo exhaust flag)) :
    PostSound lim dma resting chan fifo exhaust flag := by
  intro hruns htakes
  have hne := hruns.localNum_ne
  have hlen := htakes.2.1
  have hsize := hchan.le_size hlen
  have hlength : (chan.head fifo.localNum).length = fifo.localNum :=
    Ring.length_window _ _ _ _
  by_cases hridx : (dma 0).avail.ridx = true
  · by_cases hputs : (dma 0).compl.Puts chan fifo.localNum
    · refine ⟨hridx, ?_, hputs⟩
      obtain ⟨chan', hput, hvisible, -, -⟩ := hchan.complPut hlen hputs
      rw [fifoPost_of_succeeds hruns hfifo hsize htakes hridx hput] at hposted
      obtain ⟨posted, hle, hpost, hiff⟩ := chanPostPkt_spec lim fifo
        (dma 0).scatter (chan.head fifo.localNum) fifo.localNum
      refine hiff.mp ?_
      by_contra hshort
      -- the first address without a scatter is visible all the same
      have hposted' : posted < fifo.localNum := by omega
      have hin := hposted.visible posted
        ((chan.head fifo.localNum).getD posted 0) (by
          rw [hvisible, List.getD_eq_getElem _ _ (by omega),
            List.getElem?_eq_getElem (by omega)])
      rw [hpost] at hin
      exact hchan.entry_not_mem hlen hposted' hin
    · have hfails : ¬ (dma 0).compl.Puts (chan.taken fifo.localNum)
          (chan.head fifo.localNum).length := by
        rw [hlength]
        exact hputs
      have hfails := chanComplPut_fails hfails
      have hframe := chanComplPut_frame (dma 0).compl
        (chan.taken fifo.localNum) (hlength.trans_le hsize)
      rw [hlength] at hframe
      rw [fifoPost_of_fails hruns hfifo hsize htakes hridx hfails.1]
        at hposted
      refine absurd hposted.kept (hchan.not_kept hne hlen ?_ ?_ ?_ ?_)
      · rw [hframe.avail]
        rfl
      · rw [hframe.avail]
        rfl
      · exact hframe.availRidx
      · exact hchan.unread_eq hlen hframe hfails.2
  · rw [Bool.not_eq_true] at hridx
    rw [fifoPost_of_not_ridx hruns hfifo hsize htakes hridx] at hposted
    exact absurd hposted.kept (hchan.not_kept hne hlen rfl rfl rfl rfl)

end Written

/-- Every state of a channel that moves fewer than `2 ^ 64` addresses is ready
for a call. -/
theorem ChanInv.ready {C : Type} [Fintype C] {blocks : List Nat}
    {s : ChanState C} (h : ChanInv blocks s)
    (hblocks : blocks.length = frcSimpleRingBuffSize) (hnodup : blocks.Nodup)
    (hword : ∀ addr ∈ blocks, addr < 2 ^ 64)
    (hfew : s.transfers + frcSimpleRingBuffSize < 2 ^ 64) :
    s.chan.Ready := by
  have hfew' : s.transfers < 2 ^ 64 := by omega
  have hentered := h.entered_lt hblocks hfew'
  have hcount := h.count_eq hblocks hfew'
  have hone : ∀ addr, s.chan.avail.unread.count addr +
      s.chan.compl.unread.count addr ≤ blocks.count addr := by
    intro addr
    have hall := hcount addr
    omega
  refine ⟨?_, ?_, ?_, ?_, ?_, ?_, ?_, ?_, ?_⟩
  · rw [h.availRidx, h.availLog.ridx]
  · rw [h.complWidx, h.complLog.widx]
  · rw [h.availLog.ridx, h.availLog.widx]
    exact h.availLog.le
  · rw [h.complLog.ridx, h.complLog.widx]
    exact h.complLog.le
  · have hheld := congrArg Multiset.card h.taken
    have hreturned := h.returned_length
    have hle := h.availLog.le
    simp only [Multiset.card_add, Multiset.coe_card] at hheld
    rw [List.length_append] at hle
    rw [h.availLog.ridx, h.availLog.widx, h.complLog.ridx, h.complLog.widx,
      List.length_append]
    have hcompl := h.complLog.le
    omega
  · rw [h.availLog.widx]
    omega
  · simp only [ChanState.transfers] at hfew
    rw [h.complLog.widx]
    omega
  · rw [List.nodup_iff_count_le_one]
    intro addr
    rw [List.count_append]
    exact Nat.le_trans (hone addr) (List.nodup_iff_count_le_one.mp hnodup addr)
  · intro addr hmem
    refine hword addr (List.count_pos_iff.mp ?_)
    have hpos := List.count_pos_iff.mpr hmem
    have hall := hone addr
    omega

/-- A call of `fifo_post` on a channel that is ready keeps its promise exactly
if, once it has taken addresses, the new read index reaches the host, every
batch is scattered, and the addresses are put into the completed ring. -/
theorem postedMeansWritten_iff {lim : DmaLimits} (dma : Nat → PostDma)
    (resting : Nat → Bool) {chan : SimpleChan} {fifo : SimpleFifo}
    (exhaust flag : Bool) (hchan : chan.Ready) (hfifo : fifo.Ok lim) :
    PostedMeansWritten lim chan fifo
        (fifoPost lim dma resting chan fifo exhaust flag) ↔
      PostSound lim dma resting chan fifo exhaust flag :=
  ⟨sound_of_posted hchan hfifo, posted_of_sound hchan hfifo⟩

end Barley
