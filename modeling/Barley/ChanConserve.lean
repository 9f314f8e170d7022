/-
No block address of a channel is lost or doubled.  Whatever left the available
ring is held by a core or has entered the completed ring, and whatever left
that one is held by the host or has entered the available ring again.
-/
import Barley.ChanProtocol
import Mathlib.Algebra.Order.BigOperators.Group.Finset

namespace Barley

/-- What a core has read so far in `avail_get`, for the slots from index
`start` on of which `unread` are filled. -/
inductive AvailOpOk {C : Type} (buff : Nat → Nat) (start unread : Nat) :
    AvailOp C → Prop
  | free : AvailOpOk buff start unread .free
  | first {core : C} {len : Nat} (hlen : len ≤ unread) :
      AvailOpOk buff start unread (.first core len)
  | second {core : C} {len : Nat} (hlen : len ≤ unread)
      (hsplit : SimpleChan.len1 start len < len) :
      AvailOpOk buff start unread (.second core len
        (Ring.window frcSimpleRingBuffSize buff start
          (SimpleChan.len1 start len)))
  | publish {core : C} {len : Nat} (hlen : len ≤ unread) :
      AvailOpOk buff start unread (.publish core len
        (Ring.window frcSimpleRingBuffSize buff start len))

/-- What a core has written so far in `compl_put`. -/
inductive ComplOpOk {C : Type} (buff : Nat → Nat) (start : Nat)
    (held : C → List Nat) : ComplOp C → Prop
  | free : ComplOpOk buff start held .free
  | first (core : C) : ComplOpOk buff start held (.first core)
  | second (core : C)
      (hsplit : SimpleChan.len1 start (held core).length <
        (held core).length)
      (hfirst : Ring.window frcSimpleRingBuffSize buff start
          (SimpleChan.len1 start (held core).length) =
        (held core).take (SimpleChan.len1 start (held core).length)) :
      ComplOpOk buff start held (.second core)
  | publish (core : C)
      (hall : Ring.window frcSimpleRingBuffSize buff start
        (held core).length = held core) :
      ComplOpOk buff start held (.publish core)

/-- More filled slots, with the unread ones unchanged, do not disturb a core
that reads. -/
theorem AvailOpOk.mono {C : Type} {buff buff' : Nat → Nat}
    {start unread unread' : Nat} {op : AvailOp C}
    (h : AvailOpOk buff start unread op) (hle : unread ≤ unread')
    (hbuff : Ring.window frcSimpleRingBuffSize buff' start unread =
      Ring.window frcSimpleRingBuffSize buff start unread) :
    AvailOpOk buff' start unread' op := by
  cases h with
  | free => exact .free
  | first hlen => exact .first (Nat.le_trans hlen hle)
  | second hlen hsplit =>
      rw [Ring.window_eq_of_le _ (Nat.le_trans SimpleChan.len1_le hlen) hbuff]
      exact .second (Nat.le_trans hlen hle) hsplit
  | publish hlen =>
      rw [Ring.window_eq_of_le _ hlen hbuff]
      exact .publish (Nat.le_trans hlen hle)

/-- Blocks that other cores take or put do not disturb a core that writes. -/
theorem ComplOpOk.congr {C : Type} {buff : Nat → Nat} {start : Nat}
    {held held' : C → List Nat} {op : ComplOp C}
    (h : ComplOpOk buff start held op)
    (hheld : ∀ core, op.core = some core → held' core = held core) :
    ComplOpOk buff start held' op := by
  cases h with
  | free => exact .free
  | first core => exact .first core
  | second core hsplit hfirst =>
      have heq := hheld core rfl
      rw [← heq] at hsplit hfirst
      exact .second core hsplit hfirst
  | publish core hall =>
      rw [← hheld core rfl] at hall
      exact .publish core hall

variable {C : Type} [Fintype C]

/-- What every step keeps. -/
structure ChanInv (blocks : List Nat) (s : ChanState C) : Prop where
  availLog : RingLog s.chan.avail (blocks ++ s.availIn) s.availOut
  availRidx : s.chan.availRidx = s.availOut.length
  complLog : RingLog s.chan.compl s.complIn s.complOut
  complWidx : s.chan.complWidx = s.complIn.length
  taken : (s.availOut : Multiset Nat) =
    ∑ core, (s.held core : Multiset Nat) + s.complIn
  returned : (s.complOut : Multiset Nat) = s.host + s.availIn
  exclusive : ∀ core, s.availOp.core = some core →
    s.held core = [] ∧ s.complOp.core ≠ some core
  availOp : AvailOpOk s.chan.avail.buff s.availOut.length
    ((blocks ++ s.availIn).length - s.availOut.length) s.availOp
  complOp : ComplOpOk s.chan.compl.buff s.complIn.length s.held s.complOp

section Counts

variable {blocks : List Nat} {s : ChanState C}

theorem ChanInv.returned_length (h : ChanInv blocks s) :
    s.complOut.length = s.host.length + s.availIn.length := by
  have hcard := congrArg Multiset.card h.returned
  simpa using hcard

theorem ChanInv.held_length (h : ChanInv blocks s) (core : C) :
    (s.held core).length + s.complIn.length ≤ s.availOut.length := by
  have hcard := congrArg Multiset.card h.taken
  rw [Multiset.card_add, Multiset.coe_card, Multiset.coe_card,
    Multiset.card_sum] at hcard
  have hone := Finset.single_le_sum (fun c _ => Nat.zero_le _)
    (f := fun c => Multiset.card (s.held c : Multiset Nat))
    (Finset.mem_univ core)
  rw [Multiset.coe_card] at hone
  omega

/-- The blocks of a core always have room in the completed ring. -/
theorem ChanInv.room (h : ChanInv blocks s) (core : C) :
    s.complIn.length + (s.held core).length ≤
      s.complOut.length + blocks.length := by
  have hheld := h.held_length core
  have hreturned := h.returned_length
  have hle := h.availLog.le
  rw [List.length_append] at hle
  omega

theorem ChanInv.unread_le (h : ChanInv blocks s) :
    (blocks ++ s.availIn).length - s.availOut.length ≤ blocks.length := by
  have hreturned := h.returned_length
  have hle := h.complLog.le
  have hcard := congrArg Multiset.card h.taken
  simp only [Multiset.card_add, Multiset.coe_card] at hcard
  rw [List.length_append]
  omega

/-- With few transfers no index of the available ring wraps around. -/
theorem ChanInv.entered_lt (h : ChanInv blocks s)
    (hblocks : blocks.length = frcSimpleRingBuffSize)
    (hfew : s.transfers < 2 ^ 64) :
    (blocks ++ s.availIn).length + 1 < 2 ^ 64 := by
  have hreturned := h.returned_length
  rw [List.length_append, hblocks]
  simp only [ChanState.transfers, frcSimpleRingBuffSize] at *
  omega

end Counts

section Moves

variable {blocks : List Nat} {s : ChanState C}

theorem ChanInv.hostTake (h : ChanInv blocks s) {addr : Nat} {ring : RingBuff}
    (hget : s.chan.compl.get = some (addr, ring))
    (hfew : s.transfers < 2 ^ 64) : ChanInv blocks (s.hostTake addr ring) := by
  have hin := ChanState.complIn_lt hfew
  refine ⟨h.availLog, h.availRidx, h.complLog.get hget hin, h.complWidx,
    h.taken, ?_, h.exclusive, h.availOp, ?_⟩
  · show ((s.complOut ++ [addr] : List Nat) : Multiset Nat) =
      ((addr :: s.host : List Nat) : Multiset Nat) + s.availIn
    have hcons : ((addr :: s.host : List Nat) : Multiset Nat) =
        {addr} + s.host := rfl
    rw [← Multiset.coe_add, h.returned, hcons, Multiset.coe_singleton]
    ac_rfl
  · show ComplOpOk ring.buff s.complIn.length s.held s.complOp
    rw [RingBuff.get_buff hget]
    exact h.complOp

theorem ChanInv.hostReturn (h : ChanInv blocks s) {addr : Nat}
    {ring : RingBuff} (hmem : addr ∈ s.host)
    (hput : s.chan.avail.put addr = some ring)
    (hblocks : blocks.length = frcSimpleRingBuffSize)
    (hfew : s.transfers < 2 ^ 64) :
    ChanInv blocks (s.hostReturn addr ring) := by
  have hentered := h.entered_lt hblocks hfew
  refine ⟨?_, h.availRidx, h.complLog, h.complWidx, h.taken, ?_, h.exclusive,
    ?_, h.complOp⟩
  · show RingLog ring (blocks ++ (s.availIn ++ [addr])) s.availOut
    rw [← List.append_assoc]
    exact h.availLog.put hput hentered
  · show (s.complOut : Multiset Nat) = ((s.host.erase addr : List Nat) :
      Multiset Nat) + ((s.availIn ++ [addr] : List Nat) : Multiset Nat)
    have hcons : (s.host : Multiset Nat) =
        {addr} + ((s.host.erase addr : List Nat) : Multiset Nat) := by
      rw [← Multiset.coe_erase, Multiset.singleton_add]
      exact (Multiset.cons_erase hmem).symm
    rw [h.returned, hcons, ← Multiset.coe_add, Multiset.coe_singleton]
    ac_rfl
  · refine h.availOp.mono ?_ ?_
    · simp only [ChanState.hostReturn, List.length_append] at *
      omega
    · -- the slot that is written is not one of the unread
      exact h.availLog.window_eq (h.availLog.put hput hentered)

end Moves

section Copies

variable {blocks : List Nat} {s : ChanState C} {core : C} {len : Nat}
  {got : List Nat}

theorem ChanInv.availBegin (h : ChanInv blocks s)
    (hblocks : blocks.length = frcSimpleRingBuffSize)
    (hfew : s.transfers < 2 ^ 64) (hheld : s.held core = [])
    (hcore : s.complOp.core ≠ some core) :
    ChanInv blocks (s.availBegin core len) := by
  have hentered := h.entered_lt hblocks hfew
  have hlen : s.chan.syncAvail.availLen =
      (blocks ++ s.availIn).length - s.availOut.length := by
    rw [SimpleChan.availLen, SimpleChan.syncAvail, h.availRidx,
      h.availLog.widx, sub64_eq h.availLog.le (by omega)]
  refine ⟨h.availLog, h.availRidx, h.complLog, h.complWidx, h.taken,
    h.returned, ?_, ?_, h.complOp⟩
  · intro other hother
    simp only [ChanState.availBegin] at hother
    split at hother
    · cases hother
    · rw [AvailOp.core, Option.some.injEq] at hother
      exact hother ▸ ⟨hheld, hcore⟩
  · simp only [ChanState.availBegin]
    split
    · exact .free
    · rw [hlen] at *
      exact .first (Nat.not_lt.mp ‹_›)

theorem ChanInv.availCopyFirst (h : ChanInv blocks s)
    (hop : s.availOp = .first core len) :
    ChanInv blocks (s.availCopyFirst core len) := by
  have hok := h.availOp
  rw [hop] at hok
  cases hok with
  | first hlen =>
      have hfirst : s.chan.availFirst len =
          Ring.window frcSimpleRingBuffSize s.chan.avail.buff
            s.availOut.length (SimpleChan.len1 s.availOut.length len) := by
        rw [SimpleChan.availFirst, h.availRidx]
        exact Ring.read_first _ frcSimpleRingBuffSize_pos
      have hexclusive := h.exclusive core (by rw [hop]; rfl)
      refine ⟨h.availLog, h.availRidx, h.complLog, h.complWidx, h.taken,
        h.returned, ?_, ?_, h.complOp⟩
      · intro other hother
        simp only [ChanState.availCopyFirst] at hother
        split at hother
        · rw [AvailOp.core, Option.some.injEq] at hother
          exact hother ▸ hexclusive
        · rw [AvailOp.core, Option.some.injEq] at hother
          exact hother ▸ hexclusive
      · simp only [ChanState.availCopyFirst, hfirst, h.availRidx]
        split
        · exact .second hlen ‹_›
        · have hwhole : SimpleChan.len1 s.availOut.length len = len :=
            Nat.le_antisymm SimpleChan.len1_le (Nat.not_lt.mp ‹_›)
          rw [hwhole]
          exact .publish hlen

theorem ChanInv.availCopySecond (h : ChanInv blocks s)
    (hblocks : blocks.length = frcSimpleRingBuffSize)
    (hop : s.availOp = .second core len got) :
    ChanInv blocks (s.availCopySecond core len got) := by
  have hok := h.availOp
  rw [hop] at hok
  cases hok with
  | second hlen hsplit =>
      have hsize : len ≤ frcSimpleRingBuffSize :=
        hblocks ▸ Nat.le_trans hlen h.unread_le
      have hsecond : s.chan.availSecond len =
          Ring.window frcSimpleRingBuffSize s.chan.avail.buff
            (s.availOut.length + SimpleChan.len1 s.availOut.length len)
            (len - SimpleChan.len1 s.availOut.length len) := by
        rw [SimpleChan.availSecond, h.availRidx]
        exact Ring.read_second _ hsize hsplit
      have hexclusive := h.exclusive core (by rw [hop]; rfl)
      refine ⟨h.availLog, h.availRidx, h.complLog, h.complWidx, h.taken,
        h.returned, ?_, ?_, h.complOp⟩
      · intro other hother
        simp only [ChanState.availCopySecond, AvailOp.core,
          Option.some.injEq] at hother
        exact hother ▸ hexclusive
      · simp only [ChanState.availCopySecond, hsecond]
        rw [← Ring.window_append, Nat.add_sub_cancel' SimpleChan.len1_le]
        exact .publish hlen

theorem ChanInv.complFull_eq_false (h : ChanInv blocks s)
    (hblocks : blocks.length = frcSimpleRingBuffSize)
    (hfew : s.transfers < 2 ^ 64) (core : C) :
    s.chan.syncCompl.complFull (s.held core).length = false := by
  have hroom := h.room core
  have hle := h.complLog.le
  have hin := ChanState.complIn_lt hfew
  have hsize : frcSimpleRingBuffSize < 2 ^ 64 := by decide
  rw [hblocks] at hroom
  have hused : sub64 s.chan.complWidx s.chan.compl.ridx =
      s.complIn.length - s.complOut.length := by
    rw [h.complWidx, h.complLog.ridx, sub64_eq hle hin]
  have hfree : sub64 frcSimpleRingBuffSize (s.held core).length =
      frcSimpleRingBuffSize - (s.held core).length :=
    sub64_eq (by omega) hsize
  simp only [SimpleChan.complFull, SimpleChan.syncCompl, hused, hfree,
    decide_eq_false_iff_not]
  omega

theorem ChanInv.complBegin (h : ChanInv blocks s)
    (hcore : s.availOp.core ≠ some core) :
    ChanInv blocks (s.complBegin core) := by
  refine ⟨h.availLog, h.availRidx, h.complLog, h.complWidx, h.taken,
    h.returned, ?_, h.availOp, ?_⟩
  · intro other hother
    refine ⟨(h.exclusive other hother).1, ?_⟩
    simp only [ChanState.complBegin]
    split
    · exact Option.some_ne_none _ ∘ Eq.symm
    · intro hsame
      rw [ComplOp.core, Option.some.injEq] at hsame
      exact hcore (hsame ▸ hother)
  · simp only [ChanState.complBegin]
    split
    · exact .free
    · exact .first core

theorem ChanInv.complCopyFirst (h : ChanInv blocks s)
    (hblocks : blocks.length = frcSimpleRingBuffSize)
    (hop : s.complOp = .first core) :
    ChanInv blocks (s.complCopyFirst core) := by
  have hroom := h.room core
  rw [hblocks] at hroom
  have hlen : ((s.held core).take
      (SimpleChan.len1 s.complIn.length (s.held core).length)).length =
        SimpleChan.len1 s.complIn.length (s.held core).length :=
    Ring.length_take_firstPiece (s.held core)
  refine ⟨h.availLog, h.availRidx, ?_, h.complWidx, h.taken, h.returned, ?_,
    h.availOp, ?_⟩
  · simp only [ChanState.complCopyFirst, SimpleChan.complFirst, h.complWidx]
    exact h.complLog.write (Ring.write_first_writes s.chan.compl.buff
      frcSimpleRingBuffSize_pos hlen) hroom
  · intro other hother
    have hexclusive := h.exclusive other hother
    refine ⟨hexclusive.1, ?_⟩
    rw [hop] at hexclusive
    simp only [ChanState.complCopyFirst]
    split
    · exact hexclusive.2
    · exact hexclusive.2
  · simp only [ChanState.complCopyFirst, SimpleChan.complFirst, h.complWidx]
    split
    · exact .second core ‹_› (Ring.write_first_window s.chan.compl.buff
        frcSimpleRingBuffSize_pos hlen)
    · exact .publish core (Ring.write_whole_window s.chan.compl.buff
        (s.held core) frcSimpleRingBuffSize_pos ‹_›)

theorem ChanInv.complCopySecond (h : ChanInv blocks s)
    (hblocks : blocks.length = frcSimpleRingBuffSize)
    (hop : s.complOp = .second core) :
    ChanInv blocks (s.complCopySecond core) := by
  have hroom := h.room core
  have hle := h.complLog.le
  rw [hblocks] at hroom
  have hok := h.complOp
  rw [hop] at hok
  cases hok with
  | second _ hsplit hfirst =>
      have hsize : (s.held core).length ≤ frcSimpleRingBuffSize := by omega
      refine ⟨h.availLog, h.availRidx, ?_, h.complWidx, h.taken, h.returned,
        ?_, h.availOp, ?_⟩
      · simp only [ChanState.complCopySecond, SimpleChan.complSecond,
          h.complWidx]
        exact h.complLog.write (Ring.write_second_writes s.chan.compl.buff
          hsize hsplit List.length_drop) hroom
      · intro other hother
        have hexclusive := h.exclusive other hother
        rw [hop] at hexclusive
        exact hexclusive
      · simp only [ChanState.complCopySecond, SimpleChan.complSecond,
          h.complWidx]
        exact .publish core (Ring.write_rest_window s.chan.compl.buff
          (s.held core) hsize hsplit hfirst)

end Copies

section Publishes

variable [DecidableEq C] {blocks : List Nat} {s : ChanState C} {core : C}
  {len : Nat} {got : List Nat}

theorem sum_update_held (held : C → List Nat) (core : C) (got : List Nat) :
    ∑ c, (Function.update held core got c : Multiset Nat) + held core =
      ∑ c, (held c : Multiset Nat) + got := by
  rw [← Finset.add_sum_erase Finset.univ
      (fun c => (Function.update held core got c : Multiset Nat))
      (Finset.mem_univ core),
    ← Finset.add_sum_erase Finset.univ
      (fun c => (held c : Multiset Nat)) (Finset.mem_univ core)]
  have hsame : ∑ c ∈ Finset.univ.erase core,
      (Function.update held core got c : Multiset Nat) =
        ∑ c ∈ Finset.univ.erase core, (held c : Multiset Nat) :=
    Finset.sum_congr rfl fun c hc => by
      rw [Function.update_of_ne (Finset.ne_of_mem_erase hc)]
  rw [hsame, Function.update_self]
  ac_rfl

theorem ChanInv.availPublish (h : ChanInv blocks s)
    (hop : s.availOp = .publish core len got)
    (hfew : (s.availPublish core len got).transfers < 2 ^ 64) :
    ChanInv blocks (s.availPublish core len got) := by
  have hok := h.availOp
  rw [hop] at hok
  cases hok with
  | publish hlen =>
      obtain ⟨hheld, hcore⟩ := h.exclusive core (by rw [hop]; rfl)
      have hridx : add64 s.chan.availRidx len = s.availOut.length + len := by
        rw [h.availRidx]
        refine add64_eq ?_
        simp only [ChanState.transfers, ChanState.availPublish,
          List.length_append, Ring.length_window] at hfew
        omega
      refine ⟨h.availLog.leave hlen hridx, ?_, h.complLog, h.complWidx, ?_,
        h.returned, ?_, .free, ?_⟩
      · simp only [ChanState.availPublish, List.length_append,
          Ring.length_window]
        exact hridx
      · simp only [ChanState.availPublish]
        have hsum := sum_update_held s.held core
          (Ring.window frcSimpleRingBuffSize s.chan.avail.buff
            s.availOut.length len)
        rw [hheld, Multiset.coe_nil, Multiset.add_zero] at hsum
        rw [← Multiset.coe_add, h.taken, hsum]
        ac_rfl
      · intro other hother
        cases hother
      · refine h.complOp.congr fun other hother => ?_
        refine Function.update_of_ne ?_ _ _
        rintro rfl
        exact hcore hother

theorem ChanInv.complPublish (h : ChanInv blocks s)
    (hop : s.complOp = .publish core)
    (hfew : (s.complPublish core).transfers < 2 ^ 64) :
    ChanInv blocks (s.complPublish core) := by
  have hok := h.complOp
  rw [hop] at hok
  cases hok with
  | publish _ hall =>
      have hwidx : add64 s.chan.complWidx (s.held core).length =
          s.complIn.length + (s.held core).length := by
        rw [h.complWidx]
        refine add64_eq ?_
        simp only [ChanState.transfers, ChanState.complPublish,
          List.length_append] at hfew
        omega
      refine ⟨h.availLog, h.availRidx, h.complLog.enter hall hwidx, ?_, ?_,
        h.returned, ?_, h.availOp, .free⟩
      · simp only [ChanState.complPublish, List.length_append]
        exact hwidx
      · simp only [ChanState.complPublish]
        have hsum := sum_update_held s.held core []
        rw [Multiset.coe_nil, Multiset.add_zero] at hsum
        rw [h.taken, ← hsum, ← Multiset.coe_add]
        ac_rfl
      · intro other hother
        have hexclusive := h.exclusive other hother
        refine ⟨?_, Option.some_ne_none _ ∘ Eq.symm⟩
        simp only [ChanState.complPublish]
        rw [Function.update_apply]
        split
        · rfl
        · exact hexclusive.1

end Publishes

end Barley
