/-
What every state of a channel keeps, whatever the order in which the host and
the cores take their steps: each block address is in one place, both rings are
queues, no unread slot is overwritten, and a core that puts its blocks always
finds room.
-/
import Barley.ChanCalls
import Barley.ChanConserve

namespace Barley

section Runs

variable {C : Type} [Fintype C] [DecidableEq C] {postLwm : Nat}
  {blocks : List Nat} {s s' : ChanState C}

omit [Fintype C] in
theorem ChanStep.transfers_le (hstep : ChanStep postLwm s s') :
    s.transfers ≤ s'.transfers := by
  cases hstep with
  | hostTake hget =>
      simp only [ChanState.transfers, ChanState.hostTake, List.length_append]
      omega
  | hostReturn hmem hput =>
      simp only [ChanState.transfers, ChanState.hostReturn,
        List.length_append]
      omega
  | availPublish hop =>
      simp only [ChanState.transfers, ChanState.availPublish,
        List.length_append]
      omega
  | complPublish hop =>
      simp only [ChanState.transfers, ChanState.complPublish,
        List.length_append]
      omega
  | availBegin core hlock hheld hcore hlen => exact Nat.le_refl _
  | availCopyFirst hop => exact Nat.le_refl _
  | availCopySecond hop => exact Nat.le_refl _
  | complBegin core hlock hcore => exact Nat.le_refl _
  | complCopyFirst hop => exact Nat.le_refl _
  | complCopySecond hop => exact Nat.le_refl _

theorem ChanInv.step (h : ChanInv blocks s)
    (hblocks : blocks.length = frcSimpleRingBuffSize)
    (hstep : ChanStep postLwm s s') (hfew : s'.transfers < 2 ^ 64) :
    ChanInv blocks s' := by
  have hbefore := Nat.lt_of_le_of_lt hstep.transfers_le hfew
  cases hstep with
  | hostTake hget => exact h.hostTake hget hbefore
  | hostReturn hmem hput => exact h.hostReturn hmem hput hblocks hbefore
  | availBegin core hlock hheld hcore hlen =>
      exact h.availBegin hblocks hbefore hheld hcore
  | availCopyFirst hop => exact h.availCopyFirst hop
  | availCopySecond hop => exact h.availCopySecond hblocks hop
  | availPublish hop => exact h.availPublish hop hfew
  | complBegin core hlock hcore => exact h.complBegin hcore
  | complCopyFirst hop => exact h.complCopyFirst hblocks hop
  | complCopySecond hop => exact h.complCopySecond hblocks hop
  | complPublish hop => exact h.complPublish hop hfew

omit [DecidableEq C] in
theorem ChanInv.start {avail : RingBuff} (hlog : RingLog avail blocks []) :
    ChanInv blocks (ChanState.start C avail) where
  availLog := by
    show RingLog avail (blocks ++ []) []
    rw [List.append_nil]
    exact hlog
  availRidx := hlog.ridx
  complLog := RingLog.zero
  complWidx := rfl
  taken := by simp [ChanState.start]
  returned := rfl
  exclusive := fun core hcore => by cases hcore
  availOp := .free
  complOp := .free

theorem ChanReachable.inv {start : ChanState C} (hstart : ChanInv blocks start)
    (hblocks : blocks.length = frcSimpleRingBuffSize)
    (hreach : ChanReachable postLwm start s) (hfew : s.transfers < 2 ^ 64) :
    ChanInv blocks s := by
  induction hreach with
  | start => exact hstart
  | step _ hstep ih =>
      exact (ih (Nat.lt_of_le_of_lt hstep.transfers_le hfew)).step hblocks
        hstep hfew

end Runs

/-- The slots that `ring` has yet to deliver are the same in `ring'`. -/
def RingBuff.KeepsUnread (ring ring' : RingBuff) : Prop :=
  Ring.window frcSimpleRingBuffSize ring'.buff ring.ridx
    (sub64 ring.widx ring.ridx) = ring.unread

section Safety

variable {C : Type} [Fintype C] [DecidableEq C] {postLwm : Nat}
  {blocks : List Nat} {s s' : ChanState C}

/-- What the channel promises in a state: every block is in one of the rings
or with one of the holders, in one copy; both rings deliver in the order of
arrival and hold at most their size; `compl_put` does not return
`FRE_NOSPACE`; and the next step overwrites no unread slot. -/
structure ChanSafe (postLwm : Nat) (blocks : List Nat) (s : ChanState C) :
    Prop where
  onePlace : ∀ addr ∈ blocks,
    s.chan.avail.unread.count addr + ∑ core, (s.held core).count addr +
      s.chan.compl.unread.count addr + s.host.count addr = 1
  availOrder : blocks ++ s.availIn = s.availOut ++ s.chan.avail.unread
  complOrder : s.complIn = s.complOut ++ s.chan.compl.unread
  availBound :
    sub64 s.chan.avail.widx s.chan.avail.ridx ≤ frcSimpleRingBuffSize
  complBound :
    sub64 s.chan.compl.widx s.chan.compl.ridx ≤ frcSimpleRingBuffSize
  fits : ∀ core, s.chan.syncCompl.complFull (s.held core).length = false
  keepsUnread : ∀ s', ChanStep postLwm s s' →
    s.chan.avail.KeepsUnread s'.chan.avail ∧
      s.chan.compl.KeepsUnread s'.chan.compl

/-- A ring that has only grown keeps its unread slots. -/
theorem RingLog.keepsUnread {ring ring' : RingBuff}
    {entered left more : List Nat} (h : RingLog ring entered left)
    (h' : RingLog ring' (entered ++ more) left)
    (hfew : entered.length < 2 ^ 64) : ring.KeepsUnread ring' := by
  rw [RingBuff.KeepsUnread, h.unread_eq hfew, h.ridx, h.widx,
    sub64_eq h.le hfew]
  exact h.window_eq h'

theorem ChanInv.keepsUnread (h : ChanInv blocks s)
    (hblocks : blocks.length = frcSimpleRingBuffSize)
    (hfew : s.transfers < 2 ^ 64) (hstep : ChanStep postLwm s s') :
    s.chan.avail.KeepsUnread s'.chan.avail ∧
      s.chan.compl.KeepsUnread s'.chan.compl := by
  have hcompl := ChanState.complIn_lt hfew
  have havail := h.entered_lt hblocks hfew
  have hmore : ∀ {ring}, RingLog ring s.complIn s.complOut →
      RingLog ring (s.complIn ++ []) s.complOut := by
    intro ring hring
    rw [List.append_nil]
    exact hring
  cases hstep with
  | hostTake hget =>
      refine ⟨rfl, ?_⟩
      rw [RingBuff.KeepsUnread, ChanState.hostTake, RingBuff.get_buff hget]
      rfl
  | hostReturn hmem hput =>
      exact ⟨h.availLog.keepsUnread (h.availLog.put hput havail) (by omega),
        rfl⟩
  | complCopyFirst hop =>
      have hnext := (h.complCopyFirst hblocks hop).complLog
      exact ⟨rfl, h.complLog.keepsUnread (hmore hnext) hcompl⟩
  | complCopySecond hop =>
      have hnext := (h.complCopySecond hblocks hop).complLog
      exact ⟨rfl, h.complLog.keepsUnread (hmore hnext) hcompl⟩
  | availBegin core hlock hheld hcore hlen => exact ⟨rfl, rfl⟩
  | availCopyFirst hop => exact ⟨rfl, rfl⟩
  | availCopySecond hop => exact ⟨rfl, rfl⟩
  | availPublish hop => exact ⟨rfl, rfl⟩
  | complBegin core hlock hcore => exact ⟨rfl, rfl⟩
  | complPublish hop => exact ⟨rfl, rfl⟩

omit [DecidableEq C] in
/-- The four places together hold each block as often as the channel was
given it. -/
theorem ChanInv.count_eq (h : ChanInv blocks s)
    (hblocks : blocks.length = frcSimpleRingBuffSize)
    (hfew : s.transfers < 2 ^ 64) (addr : Nat) :
    s.chan.avail.unread.count addr + ∑ core, (s.held core).count addr +
      s.chan.compl.unread.count addr + s.host.count addr =
        blocks.count addr := by
  have havail := congrArg (List.count addr) (h.availLog.entered_eq
    (Nat.lt_of_succ_lt (h.entered_lt hblocks hfew)))
  have hcompl := congrArg (List.count addr) (h.complLog.entered_eq
    (ChanState.complIn_lt hfew))
  have htaken := congrArg (Multiset.count addr) h.taken
  have hreturned := congrArg (Multiset.count addr) h.returned
  simp only [List.count_append] at havail hcompl
  simp only [Multiset.count_add, Multiset.count_sum', Multiset.coe_count]
    at htaken hreturned
  omega

theorem ChanInv.safe (h : ChanInv blocks s)
    (hblocks : blocks.length = frcSimpleRingBuffSize) (hnodup : blocks.Nodup)
    (hfew : s.transfers < 2 ^ 64) : ChanSafe postLwm blocks s where
  onePlace := by
    intro addr hmem
    rw [h.count_eq hblocks hfew addr]
    exact List.count_eq_one_of_mem hnodup hmem
  availOrder :=
    h.availLog.entered_eq (Nat.lt_of_succ_lt (h.entered_lt hblocks hfew))
  complOrder := h.complLog.entered_eq (ChanState.complIn_lt hfew)
  availBound := by
    have hunread := h.unread_le
    rw [h.availLog.widx, h.availLog.ridx, sub64_eq h.availLog.le
      (Nat.lt_of_succ_lt (h.entered_lt hblocks hfew))]
    omega
  complBound := by
    have hheld := congrArg Multiset.card h.taken
    have hreturned := h.returned_length
    have hle := h.availLog.le
    simp only [Multiset.card_add, Multiset.coe_card] at hheld
    rw [List.length_append] at hle
    rw [h.complLog.widx, h.complLog.ridx,
      sub64_eq h.complLog.le (ChanState.complIn_lt hfew)]
    omega
  fits := h.complFull_eq_false hblocks hfew
  keepsUnread := fun _ hstep => h.keepsUnread hblocks hfew hstep

end Safety

/-- A channel that starts with as many distinct blocks as its available ring
has slots is safe in every state that the host and the cores can bring about,
whatever the order of their steps. -/
theorem chanReachable_safe {C : Type} [Fintype C] [DecidableEq C]
    (postLwm : Nat) {blocks : List Nat} (hnodup : blocks.Nodup)
    (hblocks : blocks.length = frcSimpleRingBuffSize) :
    ∃ avail, chanAvailInit .zero blocks = some avail ∧
      ∀ s, ChanReachable postLwm (ChanState.start C avail) s →
        s.transfers < 2 ^ 64 → ChanSafe postLwm blocks s := by
  obtain ⟨avail, hinit, hlog⟩ := RingLog.zero.chanAvailInit blocks
    (by rw [List.length_nil, hblocks, Nat.zero_add])
  refine ⟨avail, hinit, fun s hreach hfew => ?_⟩
  have hinv := hreach.inv (ChanInv.start hlog) hblocks hfew
  exact hinv.safe hblocks hnodup hfew

/-- The first of two cores holds the first four of the addresses from 0 on. -/
theorem chanReachable_safe_range :
    (List.range frcSimpleRingBuffSize).Nodup ∧
      (List.range frcSimpleRingBuffSize).length = frcSimpleRingBuffSize ∧
      ∃ avail s,
        chanAvailInit .zero (List.range frcSimpleRingBuffSize) = some avail ∧
        ChanReachable 4 (ChanState.start (Fin 2) avail) s ∧
        s.held 0 = [0, 1, 2, 3] ∧
        ChanSafe 4 (List.range frcSimpleRingBuffSize) s := by
  have hlength : (List.range frcSimpleRingBuffSize).length =
      frcSimpleRingBuffSize := List.length_range
  refine ⟨List.nodup_range, hlength, ?_⟩
  obtain ⟨avail, hinit, hsafe⟩ := chanReachable_safe (C := Fin 2) 4
    List.nodup_range hlength
  obtain ⟨_, hsame, hlog⟩ := RingLog.zero.chanAvailInit
    (List.range frcSimpleRingBuffSize) (by rw [List.length_nil]; omega)
  obtain rfl := Option.some_inj.mp (hinit.symm.trans hsame)
  have hwidx := hlog.widx
  rw [List.nil_append, hlength] at hwidx
  have htakes : AvailDma.ok.Takes (ChanState.start (Fin 2) avail).chan 4 := by
    refine ⟨rfl, ?_, rfl, fun _ => rfl⟩
    show 4 ≤ sub64 avail.widx avail.ridx
    rw [hwidx, hlog.ridx]
    decide
  have hget := chanAvailGet_takes (by decide) htakes
  have hreach : ChanReachable 4 (ChanState.start (Fin 2) avail)
      (.afterGet _ 0 (chanAvailGet .ok _ 4)) :=
    .availGet rfl rfl (Option.some_ne_none _ ∘ Eq.symm) (Nat.le_refl 4)
  rw [hget] at hreach
  have hhead : (ChanState.start (Fin 2) avail).chan.head 4 = [0, 1, 2, 3] := by
    have hwindow : Ring.window frcSimpleRingBuffSize avail.buff 0
        frcSimpleRingBuffSize = List.range frcSimpleRingBuffSize := by
      have hlog' := hlog.log
      rw [List.nil_append, List.nil_append, hlength] at hlog'
      exact hlog'.symm
    calc
      (ChanState.start (Fin 2) avail).chan.head 4 =
          Ring.window frcSimpleRingBuffSize avail.buff 0 4 := by
        rw [SimpleChan.head, show (ChanState.start (Fin 2) avail).chan.availRidx =
          avail.ridx from rfl, hlog.ridx]
        rfl
      _ = (List.range frcSimpleRingBuffSize).take 4 := by
        rw [← hwindow, Ring.window_take _ _ _ (by decide)]
      _ = [0, 1, 2, 3] := by
        rw [List.take_range]
        rfl
  refine ⟨avail, _, hinit, hreach, hhead, hsafe _ hreach ?_⟩
  show 0 + ([] ++ (ChanState.start (Fin 2) avail).chan.head 4).length + 0 + 0 < _
  rw [hhead]
  decide

end Barley
