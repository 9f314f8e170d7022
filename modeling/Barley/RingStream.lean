/-
A ring that a stream passes through.  One side writes free slots and then lets
them enter; the other reads the slots that have entered and then lets them
leave.
-/
import Barley.RingWindow

namespace Barley

namespace Ring

variable {A : Type} {size left count : Nat} {buff buff' : Nat → A}
  {entered items : List A}

/-- The slots between what has left and what has entered hold that part of the
stream. -/
structure Stream (size : Nat) (buff : Nat → A) (entered : List A)
    (left : Nat) : Prop where
  le : left ≤ entered.length
  room : entered.length ≤ left + size
  holds : window size buff left (entered.length - left) = entered.drop left

theorem Stream.zero (size : Nat) (buff : Nat → A) : Stream size buff [] 0 :=
  ⟨Nat.le_refl 0, Nat.zero_le _, rfl⟩

/-- Writing free slots does not disturb the stream. -/
theorem Stream.write (h : Stream size buff entered left)
    (hwrites : Writes size entered.length count buff buff')
    (hroom : entered.length + count ≤ left + size) :
    Stream size buff' entered left := by
  have hle := h.le
  refine ⟨h.le, h.room, ?_⟩
  rw [hwrites.window_eq (by omega) hroom]
  exact h.holds

theorem Stream.enter (h : Stream size buff entered left)
    (hitems : window size buff entered.length items.length = items)
    (hroom : entered.length + items.length ≤ left + size) :
    Stream size buff (entered ++ items) left := by
  have hle := h.le
  have hcount : (entered ++ items).length - left =
      (entered.length - left) + items.length := by
    rw [List.length_append]
    omega
  have hstart : left + (entered.length - left) = entered.length := by omega
  refine ⟨?_, ?_, ?_⟩
  · rw [List.length_append]
    omega
  · rw [List.length_append]
    exact hroom
  · rw [hcount, window_append, hstart, hitems, h.holds,
      List.drop_append_of_le_length hle]

/-- What is read is the next part of the stream. -/
theorem Stream.read_eq (h : Stream size buff entered left)
    (hcount : left + count ≤ entered.length) :
    window size buff left count = (entered.drop left).take count := by
  rw [← h.holds, window_take]
  omega

theorem Stream.leave (h : Stream size buff entered left)
    (hcount : left + count ≤ entered.length) :
    Stream size buff entered (left + count) := by
  have hroom := h.room
  have hsplit := h.holds
  refine ⟨hcount, by omega, ?_⟩
  rw [show entered.length - left =
      count + (entered.length - (left + count)) by omega, window_append]
    at hsplit
  have hdrop := congrArg (List.drop count) hsplit
  rw [List.drop_append_of_le_length (by rw [length_window]),
    List.drop_of_length_le (by rw [length_window]), List.nil_append,
    List.drop_drop] at hdrop
  exact hdrop

section Pieces

variable (h : Stream size buff entered left)
  (hroom : entered.length + items.length ≤ left + size)

include h hroom

/-- The first piece of a bulk write goes to free slots. -/
theorem Stream.writeFirst (hpos : 0 < size) :
    Stream size (Ring.write buff (entered.length % size)
      (items.take (firstPiece size entered.length items.length))) entered
      left := by
  have hlen : (items.take (firstPiece size entered.length
      items.length)).length = firstPiece size entered.length items.length :=
    length_take_firstPiece items
  exact h.write (write_first_writes buff hpos hlen) hroom

/-- So does the second piece, which completes the write. -/
theorem Stream.writeSecond
    (hsplit : firstPiece size entered.length items.length < items.length)
    (hfirst : window size buff entered.length
        (firstPiece size entered.length items.length) =
      items.take (firstPiece size entered.length items.length)) :
    Stream size (Ring.write buff 0
        (items.drop (firstPiece size entered.length items.length))) entered
        left ∧
      window size (Ring.write buff 0
        (items.drop (firstPiece size entered.length items.length)))
        entered.length items.length = items := by
  have hle := h.le
  have hcount : items.length ≤ size := by omega
  refine ⟨h.write (write_second_writes buff hcount hsplit List.length_drop)
    hroom, ?_⟩
  exact write_rest_window buff items hcount hsplit hfirst

end Pieces

end Ring

end Barley
