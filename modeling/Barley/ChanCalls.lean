/-
What the calls of `avail_get` and `compl_put` do when some of their copies
fail: which of them move an index, and what they leave alone.
-/
import Barley.ChanRings

namespace Barley

/-- The call gets as far as storing the new read index. -/
def AvailDma.Takes (dma : AvailDma) (chan : SimpleChan) (number : Nat) :
    Prop :=
  dma.widx = true ∧ number ≤ chan.syncAvail.availLen ∧ dma.first = true ∧
    (SimpleChan.len1 chan.availRidx number < number → dma.second = true)

/-- All copies of a call that has room succeed. -/
def ComplDma.Puts (dma : ComplDma) (chan : SimpleChan) (number : Nat) : Prop :=
  dma.ridx = true ∧ dma.first = true ∧
    (SimpleChan.len1 chan.complWidx number < number → dma.second = true) ∧
    dma.widx = true

/-- The addresses of a call, from the core's read index on. -/
def SimpleChan.head (chan : SimpleChan) (number : Nat) : List Nat :=
  Ring.window frcSimpleRingBuffSize chan.avail.buff chan.availRidx number

/-- The channel after a call that has taken addresses. -/
def SimpleChan.taken (chan : SimpleChan) (number : Nat) : SimpleChan :=
  (chan.syncAvail.storeAvail number).publishAvail

section Avail

variable {dma : AvailDma} {chan : SimpleChan} {number : Nat}

/-- A call that takes addresses fails only if the host does not learn of
it. -/
theorem chanAvailGet_takes (hsize : number ≤ frcSimpleRingBuffSize)
    (h : dma.Takes chan number) :
    chanAvailGet dma chan number =
      if dma.ridx then
        (.success, chan.taken number, chan.head number)
      else (.dma, chan.syncAvail.storeAvail number, chan.head number) := by
  obtain ⟨hwidx, hlen, hfirst, hsecond⟩ := h
  have hpiece : chan.syncAvail.availFirst number =
      Ring.window frcSimpleRingBuffSize chan.avail.buff chan.availRidx
        (SimpleChan.len1 chan.availRidx number) :=
    Ring.read_first _ frcSimpleRingBuffSize_pos
  have hridx : chan.syncAvail.availRidx = chan.availRidx := rfl
  simp only [chanAvailGet, hwidx, hfirst, if_neg (Nat.not_lt.mpr hlen),
    Bool.not_true, Bool.false_eq_true, if_false, hridx, hpiece]
  by_cases hsplit : SimpleChan.len1 chan.availRidx number < number
  · have hrest : chan.syncAvail.availSecond number =
        Ring.window frcSimpleRingBuffSize chan.avail.buff
          (chan.availRidx + SimpleChan.len1 chan.availRidx number)
          (number - SimpleChan.len1 chan.availRidx number) :=
      Ring.read_second _ hsize hsplit
    rw [if_neg (by simp [hsecond hsplit]), if_pos hsplit, hrest,
      ← Ring.window_append, Nat.add_sub_cancel' SimpleChan.len1_le]
    cases dma.ridx <;> rfl
  · have hwhole : SimpleChan.len1 chan.availRidx number = number :=
      Nat.le_antisymm SimpleChan.len1_le (Nat.not_lt.mp hsplit)
    rw [if_neg (by simp [hsplit]), if_neg hsplit, hwhole]
    cases dma.ridx <;> rfl

/-- A call that takes nothing changes at most the core's copy of the write
index. -/
theorem chanAvailGet_fails (h : ¬ dma.Takes chan number) :
    (chanAvailGet dma chan number).1 ≠ .success ∧
      ((chanAvailGet dma chan number).2.1 = chan ∨
        (chanAvailGet dma chan number).2.1 = chan.syncAvail) := by
  simp only [chanAvailGet]
  split
  · exact ⟨Fre.noConfusion, .inl rfl⟩
  · split
    · exact ⟨Fre.noConfusion, .inr rfl⟩
    · split
      · exact ⟨Fre.noConfusion, .inr rfl⟩
      · split
        · exact ⟨Fre.noConfusion, .inr rfl⟩
        · refine absurd ⟨?_, ?_, ?_, ?_⟩ h
          · simpa using ‹¬ (!dma.widx) = true›
          · exact Nat.not_lt.mp ‹_›
          · simpa using ‹¬ (!dma.first) = true›
          · intro hsplit
            have hboth : ¬ (SimpleChan.len1 chan.syncAvail.availRidx number <
              number ∧ (!dma.second) = true) := ‹_›
            simpa using not_and.mp hboth hsplit

end Avail

section Bulk

variable (chan : SimpleChan) (idxBuff : List Nat)

/-- The ring with all addresses of a call written. -/
def SimpleChan.complBulk (chan : SimpleChan) (idxBuff : List Nat) :
    SimpleChan :=
  if SimpleChan.len1 chan.complWidx idxBuff.length < idxBuff.length then
    (chan.complFirst idxBuff).complSecond idxBuff
  else chan.complFirst idxBuff

/-- What the copies of a call may touch: free slots of the completed ring and
the core's own indexes of it. -/
structure ComplFrame (count : Nat) (chan chan' : SimpleChan) : Prop where
  avail : chan'.avail = chan.avail
  availRidx : chan'.availRidx = chan.availRidx
  ridx : chan'.compl.ridx = chan.compl.ridx
  writes : Ring.Writes frcSimpleRingBuffSize chan.complWidx count
    chan.compl.buff chan'.compl.buff

theorem ComplFrame.refl (count : Nat) : ComplFrame count chan chan :=
  ⟨rfl, rfl, rfl, fun _ _ => rfl⟩

variable {chan} in
theorem ComplFrame.of_sync {count : Nat} {chan' : SimpleChan}
    (h : ComplFrame count chan.syncCompl chan') : ComplFrame count chan chan' :=
  ⟨h.avail, h.availRidx, h.ridx, h.writes⟩

theorem complFirst_frame :
    ComplFrame idxBuff.length chan (chan.complFirst idxBuff) :=
  ⟨rfl, rfl, rfl, Ring.write_first_writes _ frcSimpleRingBuffSize_pos
    (Ring.length_take_firstPiece idxBuff)⟩

theorem complBulk_frame (hsize : idxBuff.length ≤ frcSimpleRingBuffSize) :
    ComplFrame idxBuff.length chan (chan.complBulk idxBuff) := by
  unfold SimpleChan.complBulk
  split
  · refine ⟨rfl, rfl, rfl, ?_⟩
    intro slot hslot
    have hfirst := (complFirst_frame chan idxBuff).writes slot hslot
    have hsecond := Ring.write_second_writes
      (chan.complFirst idxBuff).compl.buff hsize ‹_› List.length_drop slot
      hslot
    exact hsecond.trans hfirst
  · exact complFirst_frame chan idxBuff

theorem complBulk_window (hsize : idxBuff.length ≤ frcSimpleRingBuffSize) :
    Ring.window frcSimpleRingBuffSize (chan.complBulk idxBuff).compl.buff
      chan.complWidx idxBuff.length = idxBuff := by
  unfold SimpleChan.complBulk
  split
  · exact Ring.write_rest_window _ idxBuff hsize ‹_›
      (Ring.write_first_window _ frcSimpleRingBuffSize_pos
        (Ring.length_take_firstPiece idxBuff))
  · exact Ring.write_whole_window _ idxBuff frcSimpleRingBuffSize_pos ‹_›

theorem complBulk_indexes :
    (chan.complBulk idxBuff).complWidx = chan.complWidx ∧
      (chan.complBulk idxBuff).compl.widx = chan.compl.widx := by
  unfold SimpleChan.complBulk
  split
  · exact ⟨rfl, rfl⟩
  · exact ⟨rfl, rfl⟩

end Bulk

section Compl

variable {dma : ComplDma} {chan : SimpleChan} {idxBuff : List Nat}

/-- Where a call of `compl_put` ends. -/
theorem chanComplPut_eq :
    chanComplPut dma chan idxBuff =
      if !dma.ridx then (.dma, chan)
      else if chan.syncCompl.complFull idxBuff.length then
        (.nospace, chan.syncCompl)
      else if !dma.first then (.dma, chan.syncCompl)
      else if SimpleChan.len1 chan.complWidx idxBuff.length < idxBuff.length ∧
          !dma.second then (.dma, chan.syncCompl.complFirst idxBuff)
      else if !dma.widx then
        (.dma, (chan.syncCompl.complBulk idxBuff).storeCompl idxBuff.length)
      else
        (.success, ((chan.syncCompl.complBulk idxBuff).storeCompl
          idxBuff.length).publishCompl) :=
  rfl

variable (dma chan) in
theorem chanComplPut_frame (hsize : idxBuff.length ≤ frcSimpleRingBuffSize) :
    ComplFrame idxBuff.length chan (chanComplPut dma chan idxBuff).2 := by
  have hbulk := complBulk_frame chan.syncCompl idxBuff hsize
  rw [chanComplPut_eq]
  split
  · exact ComplFrame.refl chan _
  · split
    · exact (ComplFrame.refl chan.syncCompl _).of_sync
    · split
      · exact (ComplFrame.refl chan.syncCompl _).of_sync
      · split
        · exact (complFirst_frame chan.syncCompl idxBuff).of_sync
        · split
          · exact ⟨hbulk.avail, hbulk.availRidx, hbulk.ridx, hbulk.writes⟩
          · exact ⟨hbulk.avail, hbulk.availRidx, hbulk.ridx, hbulk.writes⟩

/-- A call that fails leaves the write index that the host sees. -/
theorem chanComplPut_fails (h : ¬ dma.Puts chan idxBuff.length) :
    (chanComplPut dma chan idxBuff).1 ≠ .success ∧
      (chanComplPut dma chan idxBuff).2.compl.widx = chan.compl.widx := by
  rw [chanComplPut_eq]
  split
  · exact ⟨Fre.noConfusion, rfl⟩
  · split
    · exact ⟨Fre.noConfusion, rfl⟩
    · split
      · exact ⟨Fre.noConfusion, rfl⟩
      · split
        · exact ⟨Fre.noConfusion, rfl⟩
        · split
          · exact ⟨Fre.noConfusion,
              (complBulk_indexes chan.syncCompl idxBuff).2⟩
          · refine absurd ⟨?_, ?_, ?_, ?_⟩ h
            · simpa using ‹¬ (!dma.ridx) = true›
            · simpa using ‹¬ (!dma.first) = true›
            · intro hsplit
              have hboth : ¬ (SimpleChan.len1 chan.complWidx idxBuff.length <
                idxBuff.length ∧ (!dma.second) = true) := ‹_›
              simpa using not_and.mp hboth hsplit
            · simpa using ‹¬ (!dma.widx) = true›

variable (dma chan idxBuff) in
theorem chanComplPut_puts (h : dma.Puts chan idxBuff.length)
    (hroom : chan.syncCompl.complFull idxBuff.length = false) :
    chanComplPut dma chan idxBuff =
      (.success, ((chan.syncCompl.complBulk idxBuff).storeCompl
        idxBuff.length).publishCompl) := by
  obtain ⟨hridx, hfirst, hsecond, hwidx⟩ := h
  rw [chanComplPut_eq, if_neg (by simp [hridx]), if_neg (by simp [hroom]),
    if_neg (by simp [hfirst]), if_neg (by simp; exact hsecond),
    if_neg (by simp [hwidx])]

end Compl

end Barley
