/-
Ring buffers addressed by indexes that only grow.  Index `i` lives in slot
`i % size`; a window is what a range of indexes holds, in order.  Bulk reads
and writes are done in at most two pieces, up to the last slot and from slot 0
on.
-/
import Mathlib.Tactic.Common
import Mathlib.Data.List.Basic
import Mathlib.Data.Nat.ModEq

namespace Barley

namespace Ring

variable {A : Type}

/-- `count` slots from `offset` on. -/
def read (buff : Nat → A) (offset count : Nat) : List A :=
  (List.range count).map fun k => buff (offset + k)

/-- The slots from `offset` on overwritten with the items. -/
def write (buff : Nat → A) (offset : Nat) (items : List A) : Nat → A :=
  fun slot =>
    if offset ≤ slot then (items[slot - offset]?).getD (buff slot)
    else buff slot

/-- What `count` indexes from `start` on hold. -/
def window (size : Nat) (buff : Nat → A) (start count : Nat) : List A :=
  (List.range count).map fun k => buff ((start + k) % size)

/-- How many of `count` elements from index `start` on lie before the end of
the buffer. -/
def firstPiece (size start count : Nat) : Nat :=
  if size - start % size < count then size - start % size else count

section Windows

variable (size : Nat) (buff : Nat → A)

@[simp] theorem length_window (start count : Nat) :
    (window size buff start count).length = count := by
  simp [window]

theorem window_append (start first second : Nat) :
    window size buff start (first + second) =
      window size buff start first ++
        window size buff (start + first) second := by
  simp only [window, List.range_add, List.map_append, List.map_map]
  congr 1
  refine List.map_congr_left fun k _ => ?_
  simp [Nat.add_assoc]

theorem window_one (start : Nat) :
    window size buff start 1 = [buff (start % size)] :=
  rfl

theorem window_take (start : Nat) {first count : Nat} (h : first ≤ count) :
    (window size buff start count).take first =
      window size buff start first := by
  obtain ⟨rest, rfl⟩ := Nat.exists_eq_add_of_le h
  rw [window_append, List.take_append_of_le_length (by simp)]
  rw [List.take_of_length_le (by simp)]

/-- Windows that are equal are so up to any part of them. -/
theorem window_eq_of_le {buff buff' : Nat → A} {start first count : Nat}
    (hle : first ≤ count)
    (h : window size buff' start count = window size buff start count) :
    window size buff start first = window size buff' start first := by
  rw [← window_take size buff start hle, ← window_take size buff' start hle, h]

theorem window_congr {buff buff' : Nat → A} {start count : Nat}
    (h : ∀ k, k < count →
      buff' ((start + k) % size) = buff ((start + k) % size)) :
    window size buff' start count = window size buff start count := by
  refine List.map_congr_left fun k hk => ?_
  exact h k (List.mem_range.mp hk)

end Windows

section Pieces

variable {size start count : Nat}

theorem firstPiece_le : firstPiece size start count ≤ count := by
  unfold firstPiece
  split <;> omega

theorem firstPiece_fits (hpos : 0 < size) (start count : Nat) :
    start % size + firstPiece size start count ≤ size := by
  have hlt := Nat.mod_lt start hpos
  unfold firstPiece
  split <;> omega

theorem slot_first (hpos : 0 < size) {k : Nat}
    (hk : k < firstPiece size start count) :
    (start + k) % size = start % size + k := by
  have hfits := firstPiece_fits hpos start count
  rw [Nat.add_mod, Nat.mod_eq_of_lt (by omega : k < size)]
  exact Nat.mod_eq_of_lt (by omega)

/-- A second piece is needed only when the first one ends with the buffer. -/
theorem firstPiece_of_split (hsplit : firstPiece size start count < count) :
    firstPiece size start count = size - start % size := by
  unfold firstPiece at hsplit ⊢
  split at hsplit
  · rw [if_pos ‹_›]
  · omega

theorem slot_second (hcount : count ≤ size) {k : Nat}
    (hsplit : firstPiece size start count < count)
    (hk : k < count - firstPiece size start count) :
    (start + firstPiece size start count + k) % size = k := by
  have hpos : 0 < size := by omega
  have hlt := Nat.mod_lt start hpos
  rw [firstPiece_of_split hsplit] at hk ⊢
  have hsum : start + (size - start % size) + k =
      k + size * (start / size + 1) := by
    have hdiv := Nat.div_add_mod start size
    rw [Nat.mul_add, Nat.mul_one]
    omega
  rw [hsum, Nat.add_mul_mod_self_left]
  exact Nat.mod_eq_of_lt (by omega)

variable (buff : Nat → A)

theorem read_first (hpos : 0 < size) :
    read buff (start % size) (firstPiece size start count) =
      window size buff start (firstPiece size start count) := by
  refine List.map_congr_left fun k hk => ?_
  rw [slot_first hpos (List.mem_range.mp hk)]

theorem read_second (hcount : count ≤ size)
    (hsplit : firstPiece size start count < count) :
    read buff 0 (count - firstPiece size start count) =
      window size buff (start + firstPiece size start count)
        (count - firstPiece size start count) := by
  refine List.map_congr_left fun k hk => ?_
  rw [slot_second hcount hsplit (List.mem_range.mp hk), Nat.zero_add]

end Pieces

/-- Only slots of the `count` indexes from `start` on have changed. -/
def Writes (size start count : Nat) (buff buff' : Nat → A) : Prop :=
  ∀ slot, (∀ k, k < count → slot ≠ (start + k) % size) → buff' slot = buff slot

/-- Two indexes less than a round apart have different slots. -/
theorem slot_ne {size i j : Nat} (hlt : i < j) (hnear : j < i + size) :
    i % size ≠ j % size := by
  intro hsame
  have hdvd : size ∣ j - i :=
    (Nat.modEq_iff_dvd' (Nat.le_of_lt hlt)).mp hsame
  have hle := Nat.le_of_dvd (by omega) hdvd
  omega

/-- A write of less than the free slots leaves the indexes before it alone. -/
theorem Writes.window_eq {size start count ridx unread : Nat}
    {buff buff' : Nat → A} (h : Writes size start count buff buff')
    (hle : ridx + unread ≤ start) (hroom : start + count ≤ ridx + size) :
    window size buff' ridx unread = window size buff ridx unread := by
  refine window_congr size fun k hk => h _ fun other hother => ?_
  exact slot_ne (by omega) (by omega)

section Write

variable {size start count : Nat} (buff : Nat → A) {items : List A}

theorem write_get (offset : Nat) {k : Nat} (hk : k < items.length) :
    write buff offset items (offset + k) = items[k] := by
  rw [write, if_pos (Nat.le_add_right _ _), Nat.add_sub_cancel_left,
    List.getElem?_eq_getElem hk, Option.getD_some]

theorem write_of_outside {offset slot : Nat}
    (h : slot < offset ∨ offset + items.length ≤ slot) :
    write buff offset items slot = buff slot := by
  rw [write]
  split
  · rw [List.getElem?_eq_none (by omega), Option.getD_none]
  · rfl

theorem window_eq_of_get {buff : Nat → A} (hlen : items.length = count)
    (h : ∀ k (hk : k < items.length), buff ((start + k) % size) = items[k]) :
    window size buff start count = items := by
  refine List.ext_getElem (by simp [hlen]) fun k hk hk' => ?_
  rw [← h k hk']
  simp [window]

theorem write_first_window (hpos : 0 < size)
    (hlen : items.length = firstPiece size start count) :
    window size (write buff (start % size) items) start
      (firstPiece size start count) = items := by
  refine window_eq_of_get hlen fun k hk => ?_
  rw [slot_first hpos (hlen ▸ hk)]
  exact write_get buff _ hk

theorem write_first_writes (hpos : 0 < size)
    (hlen : items.length = firstPiece size start count) :
    Writes size start count buff (write buff (start % size) items) := by
  intro slot hslot
  refine write_of_outside buff ?_
  by_contra hinside
  have hk : slot - start % size < firstPiece size start count := by omega
  refine hslot (slot - start % size)
    (Nat.lt_of_lt_of_le hk firstPiece_le) ?_
  rw [slot_first hpos hk]
  omega

variable (hcount : count ≤ size)
  (hsplit : firstPiece size start count < count)
  (hlen : items.length = count - firstPiece size start count)

include hcount hsplit hlen

theorem write_second_window :
    window size (write buff 0 items) (start + firstPiece size start count)
      (count - firstPiece size start count) = items := by
  refine window_eq_of_get hlen fun k hk => ?_
  rw [slot_second hcount hsplit (hlen ▸ hk)]
  have hget := write_get buff 0 hk
  rwa [Nat.zero_add] at hget

theorem write_second_writes :
    Writes size start count buff (write buff 0 items) := by
  intro slot hslot
  refine write_of_outside buff (.inr ?_)
  rw [Nat.zero_add, hlen]
  by_contra hinside
  have hk : slot < count - firstPiece size start count := by omega
  refine hslot (firstPiece size start count + slot) (by omega) ?_
  rw [← Nat.add_assoc, slot_second hcount hsplit hk]

/-- The second piece does not reach the slots of the first. -/
theorem write_second_first :
    window size (write buff 0 items) start (firstPiece size start count) =
      window size buff start (firstPiece size start count) := by
  have hpos : 0 < size := by omega
  have hfits := firstPiece_fits hpos start count
  have hpiece := firstPiece_of_split hsplit
  have hlt := Nat.mod_lt start hpos
  refine window_congr size fun k hk => ?_
  refine write_of_outside buff (.inr ?_)
  rw [slot_first hpos hk, hlen]
  omega

end Write

section Bulk

variable {size start : Nat} (buff : Nat → A) (items : List A)

theorem length_take_firstPiece :
    (items.take (firstPiece size start items.length)).length =
      firstPiece size start items.length := by
  rw [List.length_take]
  exact Nat.min_eq_left firstPiece_le

/-- A bulk write that needs no second piece. -/
theorem write_whole_window (hpos : 0 < size)
    (hwhole : ¬ firstPiece size start items.length < items.length) :
    window size (write buff (start % size)
        (items.take (firstPiece size start items.length))) start
      items.length = items := by
  have hlen : (items.take (firstPiece size start items.length)).length =
      firstPiece size start items.length := length_take_firstPiece items
  have hwritten := write_first_window buff hpos hlen
  have heq : firstPiece size start items.length = items.length :=
    Nat.le_antisymm firstPiece_le (Nat.not_lt.mp hwhole)
  rw [heq, List.take_length] at hwritten ⊢
  exact hwritten

/-- The second piece completes a bulk write. -/
theorem write_rest_window (hcount : items.length ≤ size)
    (hsplit : firstPiece size start items.length < items.length)
    (hfirst : window size buff start (firstPiece size start items.length) =
      items.take (firstPiece size start items.length)) :
    window size (write buff 0
        (items.drop (firstPiece size start items.length))) start
      items.length = items := by
  have hsum := window_append size
    (write buff 0 (items.drop (firstPiece size start items.length))) start
    (firstPiece size start items.length)
    (items.length - firstPiece size start items.length)
  rw [Nat.add_sub_cancel' firstPiece_le] at hsum
  rw [hsum, write_second_first buff hcount hsplit List.length_drop, hfirst,
    write_second_window buff hcount hsplit List.length_drop,
    List.take_append_drop]

theorem write_nil (offset : Nat) : write buff offset ([] : List A) = buff := by
  funext slot
  rw [write, List.getElem?_nil, Option.getD_none, ite_self]

variable (start) in
/-- A bulk write, both pieces, when the second may be empty. -/
theorem write_pieces (hpos : 0 < size) (hcount : items.length ≤ size) :
    window size (write (write buff (start % size)
          (items.take (firstPiece size start items.length))) 0
          (items.drop (firstPiece size start items.length))) start
        items.length = items ∧
      Writes size start items.length buff
        (write (write buff (start % size)
          (items.take (firstPiece size start items.length))) 0
          (items.drop (firstPiece size start items.length))) := by
  have hlen : (items.take (firstPiece size start items.length)).length =
      firstPiece size start items.length := length_take_firstPiece items
  have hwrites := write_first_writes buff hpos hlen
  by_cases hsplit : firstPiece size start items.length < items.length
  · refine ⟨write_rest_window _ items hcount hsplit
      (write_first_window buff hpos hlen), ?_⟩
    intro slot hslot
    have hsecond := write_second_writes (write buff (start % size)
      (items.take (firstPiece size start items.length))) hcount hsplit
      List.length_drop
    exact (hsecond slot hslot).trans (hwrites slot hslot)
  · have hnil : items.drop (firstPiece size start items.length) = [] :=
      List.drop_eq_nil_of_le (Nat.not_lt.mp hsplit)
    rw [hnil, write_nil]
    exact ⟨write_whole_window buff items hpos hsplit, hwrites⟩

@[simp] theorem length_read (offset count : Nat) :
    (read buff offset count).length = count := by
  simp [read]

variable (start) in
/-- A bulk read, both pieces, when the second may be empty. -/
theorem read_pieces {count : Nat} (hpos : 0 < size) (hcount : count ≤ size) :
    read buff (start % size) (firstPiece size start count) ++
        read buff 0 (count - firstPiece size start count) =
      window size buff start count := by
  have hsum := window_append size buff start (firstPiece size start count)
    (count - firstPiece size start count)
  rw [Nat.add_sub_cancel' firstPiece_le] at hsum
  rw [hsum, read_first buff hpos]
  by_cases hsplit : firstPiece size start count < count
  · rw [read_second buff hcount hsplit]
  · have hzero : count - firstPiece size start count = 0 := by omega
    rw [hzero]
    rfl

end Bulk

end Ring

end Barley
