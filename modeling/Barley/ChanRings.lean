/-
One ring of a channel and the history of the addresses that went through it:
its indexes count what has entered and what has left, and between them it
holds, in order, what has entered and not left.
-/
import Barley.SimpleChan

namespace Barley

theorem frcSimpleRingBuffSize_pos : 0 < frcSimpleRingBuffSize := by
  decide

theorem SimpleChan.len1_le {idx len : Nat} : SimpleChan.len1 idx len ≤ len :=
  Ring.firstPiece_le

/-- The ring, with what has entered it and what has left it so far. -/
structure RingLog (ring : RingBuff) (entered left : List Nat) : Prop where
  ridx : ring.ridx = left.length
  widx : ring.widx = entered.length
  le : left.length ≤ entered.length
  log : entered = left ++ Ring.window frcSimpleRingBuffSize ring.buff
    left.length (entered.length - left.length)

section Ring

variable {ring : RingBuff} {entered left : List Nat}

theorem RingLog.unread_eq (h : RingLog ring entered left)
    (hfew : entered.length < 2 ^ 64) :
    ring.unread = Ring.window frcSimpleRingBuffSize ring.buff left.length
      (entered.length - left.length) := by
  rw [RingBuff.unread, h.ridx, h.widx, sub64_eq h.le hfew]

/-- Addresses leave in the order in which they entered. -/
theorem RingLog.entered_eq (h : RingLog ring entered left)
    (hfew : entered.length < 2 ^ 64) : entered = left ++ ring.unread := by
  rw [h.unread_eq hfew]
  exact h.log

/-- A write into free slots keeps what is unread. -/
theorem RingLog.write (h : RingLog ring entered left) {count : Nat}
    {buff : Nat → Nat}
    (hwrites : Ring.Writes frcSimpleRingBuffSize entered.length count ring.buff
      buff)
    (hroom : entered.length + count ≤ left.length + frcSimpleRingBuffSize) :
    RingLog { ring with buff := buff } entered left := by
  have hle := h.le
  refine ⟨h.ridx, h.widx, h.le, ?_⟩
  rw [hwrites.window_eq (by omega) hroom]
  exact h.log

/-- The written slots become part of the ring when its index passes them. -/
theorem RingLog.enter (h : RingLog ring entered left) {items : List Nat}
    (hitems : Ring.window frcSimpleRingBuffSize ring.buff entered.length
      items.length = items) {widx : Nat}
    (hwidx : widx = entered.length + items.length) :
    RingLog { ring with widx := widx } (entered ++ items) left := by
  have hle := h.le
  refine ⟨h.ridx, by simp [hwidx], by simp; omega, ?_⟩
  have hcount : (entered ++ items).length - left.length =
      (entered.length - left.length) + items.length := by
    rw [List.length_append]
    omega
  have hstart : left.length + (entered.length - left.length) =
      entered.length := by omega
  rw [hcount, Ring.window_append, hstart, hitems, ← List.append_assoc,
    ← h.log]

/-- The first unread slots leave the ring when its index passes them. -/
theorem RingLog.leave (h : RingLog ring entered left) {count ridx : Nat}
    (hcount : count ≤ entered.length - left.length)
    (hridx : ridx = left.length + count) :
    RingLog { ring with ridx := ridx } entered (left ++
      Ring.window frcSimpleRingBuffSize ring.buff left.length count) := by
  have hle := h.le
  refine ⟨by simp [hridx], h.widx, by simp; omega, ?_⟩
  have hsplit : entered.length - left.length =
      count + (entered.length - (left.length + count)) := by omega
  conv_lhs => rw [h.log, hsplit, Ring.window_append, ← List.append_assoc]
  rw [List.length_append, Ring.length_window]

/-- As long as nothing leaves, the unread slots hold what they held. -/
theorem RingLog.window_eq (h : RingLog ring entered left) {ring' : RingBuff}
    {more : List Nat} (h' : RingLog ring' (entered ++ more) left) :
    Ring.window frcSimpleRingBuffSize ring'.buff left.length
        (entered.length - left.length) =
      Ring.window frcSimpleRingBuffSize ring.buff left.length
        (entered.length - left.length) := by
  have hle := h.le
  have hcount : (entered ++ more).length - left.length =
      (entered.length - left.length) + more.length := by
    rw [List.length_append]
    omega
  have hlog := h'.log
  rw [hcount, Ring.window_append, ← List.append_assoc] at hlog
  have hfront := List.append_inj_left' hlog (by simp)
  exact (List.append_cancel_left (h.log.symm.trans hfront)).symm

theorem RingBuff.get_buff {addr : Nat} {ring' : RingBuff}
    (hget : ring.get = some (addr, ring')) : ring'.buff = ring.buff := by
  unfold RingBuff.get at hget
  split at hget
  · rw [Option.some.injEq, Prod.mk.injEq] at hget
    rw [← hget.2]
  · cases hget

theorem RingLog.put (h : RingLog ring entered left) {addr : Nat}
    {ring' : RingBuff} (hput : ring.put addr = some ring')
    (hfew : entered.length + 1 < 2 ^ 64) :
    RingLog ring' (entered ++ [addr]) left := by
  have hle := h.le
  unfold RingBuff.put at hput
  split at hput
  · rw [Option.some.injEq] at hput
    subst hput
    have hroom : sub64 ring.widx ring.ridx < frcSimpleRingBuffSize :=
      And.right ‹_›
    rw [h.ridx, h.widx, sub64_eq h.le (by omega)] at hroom
    have hwrites : Ring.Writes frcSimpleRingBuffSize entered.length 1 ring.buff
        (Function.update ring.buff (ring.widx % frcSimpleRingBuffSize)
          addr) := by
      intro slot hslot
      have hne := hslot 0 Nat.one_pos
      rw [Nat.add_zero, ← h.widx] at hne
      exact Function.update_of_ne hne _ _
    refine (h.write hwrites (by omega)).enter ?_ ?_
    · rw [List.length_singleton, Ring.window_one, ← h.widx]
      simp
    · rw [List.length_singleton, h.widx, add64_eq hfew]
  · cases hput

theorem RingLog.get (h : RingLog ring entered left) {addr : Nat}
    {ring' : RingBuff} (hget : ring.get = some (addr, ring'))
    (hfew : entered.length < 2 ^ 64) :
    RingLog ring' entered (left ++ [addr]) := by
  have hle := h.le
  unfold RingBuff.get at hget
  split at hget
  · rw [Option.some.injEq, Prod.mk.injEq] at hget
    obtain ⟨rfl, rfl⟩ := hget
    have hsome : ring.ridx < ring.widx := And.left ‹_›
    rw [h.ridx, h.widx] at hsome
    have hleft := h.leave (by omega : 1 ≤ entered.length - left.length)
      (by rw [h.ridx, add64_eq (by omega)] :
        add64 ring.ridx 1 = left.length + 1)
    rw [Ring.window_one, ← h.ridx] at hleft
    exact hleft
  · cases hget

theorem RingLog.put_some (h : RingLog ring entered left)
    (hfew : entered.length < 2 ^ 64)
    (hroom : entered.length - left.length < frcSimpleRingBuffSize)
    (addr : Nat) : ∃ ring', ring.put addr = some ring' := by
  refine ⟨_, if_pos ⟨?_, ?_⟩⟩
  · rw [h.ridx, h.widx]
    exact h.le
  · rw [h.ridx, h.widx, sub64_eq h.le hfew]
    exact hroom

end Ring

theorem RingLog.zero : RingLog .zero [] [] :=
  ⟨rfl, rfl, Nat.le_refl _, rfl⟩

/-- The driver fills the ring with its blocks, in their order. -/
theorem RingLog.chanAvailInit {ring : RingBuff} {entered : List Nat}
    (h : RingLog ring entered []) (blocks : List Nat)
    (hroom : entered.length + blocks.length ≤ frcSimpleRingBuffSize) :
    ∃ ring', chanAvailInit ring blocks = some ring' ∧
      RingLog ring' (entered ++ blocks) [] := by
  have hsize : frcSimpleRingBuffSize + 1 < 2 ^ 64 := by decide
  induction blocks generalizing ring entered with
  | nil =>
      rw [List.append_nil]
      exact ⟨ring, rfl, h⟩
  | cons addr rest ih =>
      rw [List.length_cons] at hroom
      obtain ⟨next, hput⟩ := h.put_some (by omega)
        (by rw [List.length_nil]; omega) addr
      have hnext := h.put hput (by omega)
      obtain ⟨ring', hinit, hlog⟩ := ih hnext (by
        rw [List.length_append, List.length_singleton]
        omega)
      refine ⟨ring', ?_, ?_⟩
      · rw [Barley.chanAvailInit, List.foldlM_cons, hput]
        exact hinit
      · rw [List.append_assoc, List.singleton_append] at hlog
        exact hlog

end Barley
