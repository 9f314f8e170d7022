/-
Cyclic redundancy checks computed bit by bit, highest bit first, in a register
of any width: what the register owes to its start and what to the message, why
a table can take a whole word at a time, and which changes of a message show.
-/
import Mathlib.Tactic.Common

namespace Barley

namespace SerialCrc

variable {w : Nat} (poly : BitVec w)

/-- The register moves up by one bit.  If the bit that falls out of it differs
from the message's, the polynomial is added. -/
def step (crc : BitVec w) (bit : Bool) : BitVec w :=
  if crc.msb ^^ bit then (crc <<< 1) ^^^ poly else crc <<< 1

/-- The register after the bits of a message. -/
def run (crc : BitVec w) (message : List Bool) : BitVec w :=
  message.foldl (step poly) crc

/-- The first bits of a word. -/
def leading (word : BitVec w) (count : Nat) : List Bool :=
  (List.range count).map word.getMsbD

/-- The check of a message of words, with all bits of the register clear at
the start. -/
def check (words : List (BitVec w)) : BitVec w :=
  run poly 0#w (words.flatMap fun word => leading word w)

theorem run_append (crc : BitVec w) (message rest : List Bool) :
    run poly crc (message ++ rest) = run poly (run poly crc message) rest :=
  List.foldl_append

/-- A step is linear in the register and the bit. -/
theorem step_xor (crc crc' : BitVec w) (bit bit' : Bool) :
    step poly (crc ^^^ crc') (bit ^^ bit') =
      step poly crc bit ^^^ step poly crc' bit' := by
  have hout : ((crc ^^^ crc').msb ^^ (bit ^^ bit')) =
      ((crc.msb ^^ bit) ^^ (crc'.msb ^^ bit')) := by
    rw [BitVec.msb_xor]
    cases crc.msb <;> cases crc'.msb <;> cases bit <;> cases bit' <;> rfl
  rw [step, step, step, hout, BitVec.shiftLeft_xor_distrib]
  cases crc.msb ^^ bit with
  | false =>
      cases crc'.msb ^^ bit' with
      | false => rfl
      | true => exact BitVec.xor_assoc ..
  | true =>
      cases crc'.msb ^^ bit' with
      | false =>
          change crc <<< 1 ^^^ crc' <<< 1 ^^^ poly = _
          rw [BitVec.xor_assoc, BitVec.xor_comm (crc' <<< 1),
            ← BitVec.xor_assoc]
          rfl
      | true =>
          change crc <<< 1 ^^^ crc' <<< 1 =
            (crc <<< 1 ^^^ poly) ^^^ (crc' <<< 1 ^^^ poly)
          rw [BitVec.xor_comm (crc' <<< 1) poly, BitVec.xor_assoc,
            ← BitVec.xor_assoc poly, BitVec.xor_self, BitVec.zero_xor]

/-- The bits of a word still to come can be put into the register before they
come: the top bits of the word, moved up, are what is left to add. -/
theorem run_leading (crc word : BitVec w) (count : Nat) :
    run poly crc (leading word count) =
      run poly (crc ^^^ word) (List.replicate count false) ^^^
        word <<< count := by
  induction count with
  | zero =>
      change crc = crc ^^^ word ^^^ word <<< 0
      rw [BitVec.shiftLeft_zero, BitVec.xor_assoc, BitVec.xor_self,
        BitVec.xor_zero]
  | succ count ih =>
      have hmsb : (word <<< count).msb = word.getMsbD count := by
        rw [BitVec.msb_shiftLeft]
      have hnext : step poly (word <<< count) (word.getMsbD count) =
          word <<< (count + 1) := by
        rw [step, hmsb, Bool.xor_self, BitVec.shiftLeft_add]
        rfl
      rw [leading, List.range_succ, List.map_append, run_append]
      change step poly (run poly crc (leading word count))
        (word.getMsbD count) = _
      rw [ih, ← Bool.false_xor (word.getMsbD count), step_xor, hnext,
        List.replicate_succ', run_append]
      rfl

/-- A word can be added to the register all at once. -/
theorem run_word (crc word : BitVec w) :
    run poly crc (leading word w) =
      run poly (crc ^^^ word) (List.replicate w false) := by
  rw [run_leading, BitVec.shiftLeft_eq_zero (Nat.le_refl w), BitVec.xor_zero]

/-- The table holds the register that each word leaves on its own. -/
def IsTable (table : BitVec w → BitVec w) : Prop :=
  ∀ index, table index = run poly index (List.replicate w false)

/-- Going through a message word by word, by the table, is going through it
bit by bit. -/
theorem foldl_table {table : BitVec w → BitVec w} (h : IsTable poly table)
    (crc : BitVec w) (words : List (BitVec w)) :
    words.foldl (fun crc word => table (crc ^^^ word)) crc =
      run poly crc (words.flatMap fun word => leading word w) := by
  induction words generalizing crc with
  | nil => rfl
  | cons word rest ih =>
      rw [List.foldl_cons, List.flatMap_cons, run_append, run_word, h, ih]

section Detection

variable {poly}

/-- Nothing but a clear register is cleared by a step. -/
theorem step_eq_zero (hpoly : poly.getLsbD 0 = true) {crc : BitVec w}
    (h : step poly crc false = 0#w) : crc = 0#w := by
  rw [step, Bool.xor_false] at h
  cases hmsb : crc.msb with
  | true =>
      rw [hmsb, if_pos rfl] at h
      have hlow := congrArg (fun word => word.getLsbD 0) h
      simp [hpoly] at hlow
  | false =>
      rw [hmsb, if_neg Bool.false_ne_true] at h
      refine BitVec.eq_of_getLsbD_eq fun i hi => ?_
      rw [BitVec.getLsbD_zero]
      by_cases htop : i + 1 < w
      · have hnext := congrArg (fun word => word.getLsbD (i + 1)) h
        rw [BitVec.getLsbD_eq_getElem hi]
        simpa [htop] using hnext
      · have hlast : i = w - 1 := by omega
        rwa [hlast, ← BitVec.msb_eq_getLsbD_last]

theorem step_injective (hpoly : poly.getLsbD 0 = true) (bit : Bool) :
    Function.Injective fun crc => step poly crc bit := by
  intro crc crc' h
  have hdiff := step_xor poly crc crc' bit bit
  rw [Bool.xor_self, show step poly crc bit = step poly crc' bit from h,
    BitVec.xor_self] at hdiff
  exact BitVec.xor_eq_zero_iff.mp (step_eq_zero hpoly hdiff)

/-- Two registers that differ still differ after the same message. -/
theorem run_injective (hpoly : poly.getLsbD 0 = true) (message : List Bool) :
    Function.Injective fun crc => run poly crc message := by
  induction message with
  | nil => exact Function.injective_id
  | cons bit rest ih => exact ih.comp (step_injective hpoly bit)

/-- A message in which one word has been changed has another check. -/
theorem check_ne_of_word (hpoly : poly.getLsbD 0 = true)
    {word other : BitVec w} (h : word ≠ other)
    (before after : List (BitVec w)) :
    check poly (before ++ word :: after) ≠
      check poly (before ++ other :: after) := by
  simp only [check, List.flatMap_append, List.flatMap_cons, run_append,
    run_word]
  intro heq
  have hword := run_injective hpoly _ (run_injective hpoly _ heq)
  exact h ((BitVec.xor_right_inj _).mp hword)

theorem run_zeros_zero (count : Nat) :
    run poly 0#w (List.replicate count false) = 0#w := by
  induction count with
  | zero => rfl
  | succ count ih =>
      have hstep : step poly 0#w false = 0#w := by
        simp [step]
      rw [List.replicate_succ, run, List.foldl_cons, hstep]
      exact ih

/-- The only word that brings the check to zero is the check itself. -/
theorem check_concat_eq_zero_iff (hpoly : poly.getLsbD 0 = true)
    (words : List (BitVec w)) (word : BitVec w) :
    check poly (words ++ [word]) = 0#w ↔ check poly words = word := by
  have hlast : check poly (words ++ [word]) =
      run poly (check poly words ^^^ word) (List.replicate w false) := by
    rw [check, List.flatMap_append, run_append, List.flatMap_singleton,
      run_word]
    rfl
  have hsame : check poly words = word ↔ check poly words ^^^ word = 0#w :=
    BitVec.xor_eq_zero_iff.symm
  rw [hlast, hsame]
  constructor
  · intro h
    exact run_injective hpoly _ (h.trans (run_zeros_zero w).symm)
  · intro h
    rw [h, run_zeros_zero]

end Detection

end SerialCrc

end Barley
