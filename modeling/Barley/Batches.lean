/-
A buffer that is flushed whenever it is full.  Flush number `b` succeeds or
fails as `ok b` says; what was put in is always what the flushes have sent,
followed by what is still pending.
-/
import Mathlib.Data.List.Basic
import Mathlib.Tactic.Common

namespace Barley

namespace Batches

variable {A : Type}

/-- The items of the open batch, those sent with earlier batches, and the
number of these batches. -/
structure Batch (A : Type) where
  pending : List A
  written : List A
  count : Nat

def Batch.empty : Batch A := ⟨[], [], 0⟩

variable (limit : Nat) (ok : Nat → Bool)

/-- Send the open batch.  If that fails, it stays as it is. -/
def flush (s : Batch A) : Except (Batch A) (Batch A) :=
  if ok s.count then .ok ⟨[], s.written ++ s.pending, s.count + 1⟩
  else .error s

/-- Put an item into the open batch, and send it once it is full. -/
def queue (s : Batch A) (item : A) : Except (Batch A) (Batch A) :=
  let s := { s with pending := s.pending ++ [item] }
  if s.pending.length = limit then flush ok s else .ok s

/-- The batch has taken these items, and every flush so far has succeeded. -/
structure Holds (items : List A) (s : Batch A) : Prop where
  all : s.written ++ s.pending = items
  full : s.written.length = s.count * limit
  sent : ∀ b < s.count, ok b = true

/-- The next flush of the batch fails. -/
structure Failed (items : List A) (s : Batch A) : Prop
    extends Holds limit ok items s where
  failed : ok s.count = false

variable {limit ok}

theorem holds_empty : Holds limit ok [] (Batch.empty : Batch A) where
  all := rfl
  full := (Nat.zero_mul limit).symm
  sent := fun b hb => absurd hb (Nat.not_lt_zero b)

theorem Holds.length {items : List A} {s : Batch A}
    (h : Holds limit ok items s) :
    items.length = s.count * limit + s.pending.length := by
  rw [← h.all, List.length_append, h.full]

/-- An open batch is sent like those before it, or the flush of it fails. -/
theorem flush_cases {items : List A} {s : Batch A}
    (h : Holds limit ok items s) :
    (flush ok s = .ok ⟨[], s.written ++ s.pending, s.count + 1⟩ ∧
      ∀ b ≤ s.count, ok b = true) ∨
    flush ok s = .error s ∧ Failed limit ok items s := by
  cases hok : ok s.count with
  | true =>
      refine .inl ⟨if_pos hok, fun b hb => ?_⟩
      rcases Nat.lt_or_eq_of_le hb with hlt | rfl
      · exact h.sent b hlt
      · exact hok
  | false =>
      exact .inr ⟨if_neg (Bool.not_eq_true _ ▸ hok), h, hok⟩

/-- A full batch is sent, or the flush of it fails. -/
theorem flush_full {items : List A} {s : Batch A}
    (h : Holds limit ok items s) (hfull : s.pending.length = limit) :
    (∃ next, flush ok s = .ok next ∧ Holds limit ok items next ∧
      next.pending = []) ∨
    flush ok s = .error s ∧ Failed limit ok items s := by
  rcases flush_cases h with ⟨hflush, hsent⟩ | hfailed
  · refine .inl ⟨_, hflush, ⟨?_, ?_, ?_⟩, rfl⟩
    · rw [List.append_nil, h.all]
    · rw [List.length_append, h.full, hfull, Nat.succ_mul]
    · exact fun b hb => hsent b (Nat.le_of_lt_succ hb)
  · exact .inr hfailed

/-- An item is taken, or the batch it fills cannot be sent. -/
theorem queue_cases {items : List A} {s : Batch A}
    (h : Holds limit ok items s) (hroom : s.pending.length < limit)
    (item : A) :
    (∃ next, queue limit ok s item = .ok next ∧
      Holds limit ok (items ++ [item]) next ∧
      next.pending.length < limit) ∨
    ∃ next, queue limit ok s item = .error next ∧
      Failed limit ok (items ++ [item]) next ∧
      next.pending.length = limit := by
  have hadded : Holds limit ok (items ++ [item])
      { s with pending := s.pending ++ [item] } := by
    refine ⟨?_, h.full, h.sent⟩
    rw [← List.append_assoc, h.all]
  unfold queue
  simp only
  split
  · rename_i hfull
    rcases flush_full hadded hfull with
      ⟨next, heq, hnext, hempty⟩ | ⟨heq, hfailed⟩
    · refine .inl ⟨next, heq, hnext, ?_⟩
      rw [hempty]
      exact Nat.zero_lt_of_lt hroom
    · exact .inr ⟨_, heq, hfailed, hfull⟩
  · rename_i hnot
    refine .inl ⟨_, rfl, hadded, ?_⟩
    have hlength : (s.pending ++ [item]).length = s.pending.length + 1 := by
      rw [List.length_append, List.length_singleton]
    exact Nat.lt_of_le_of_ne (hlength ▸ hroom) hnot

/-- A batch that is not full is sent last. -/
theorem flush_last {items : List A} {s : Batch A}
    (h : Holds limit ok items s) :
    (∃ next, flush ok s = .ok next ∧ next.written = items ∧
      ∀ b ≤ s.count, ok b = true) ∨
    flush ok s = .error s ∧ Failed limit ok items s := by
  rcases flush_cases h with ⟨hflush, hsent⟩ | hfailed
  · exact .inl ⟨_, hflush, h.all, hsent⟩
  · exact .inr hfailed

end Batches

end Barley
