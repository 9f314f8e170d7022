/-
What a bitwise check means: it is the remainder of the message, moved up by the
width of the register, in the division by the generator polynomial over the
field of two elements.
-/
import Barley.SerialCrc
import Mathlib.Algebra.CharP.Two
import Mathlib.Algebra.Field.ZMod
import Mathlib.Algebra.Polynomial.FieldDivision
import Mathlib.RingTheory.PrincipalIdealDomain

namespace Barley

namespace SerialCrc

open Polynomial

variable {w : Nat}

/-- A bit as a coefficient. -/
def coefficient (bit : Bool) : ZMod 2 := if bit then 1 else 0

theorem coefficient_false : coefficient false = 0 := rfl

theorem coefficient_true : coefficient true = 1 := rfl

theorem coefficient_xor (bit other : Bool) :
    coefficient (bit ^^ other) = coefficient bit + coefficient other := by
  cases bit <;> cases other <;> rfl

theorem coefficient_and (bit other : Bool) :
    coefficient (bit && other) = coefficient bit * coefficient other := by
  cases bit <;> cases other <;> rfl

/-- A word as a polynomial, its lowest bit first. -/
noncomputable def wordPoly (word : BitVec w) : (ZMod 2)[X] :=
  ∑ i ∈ Finset.range w, C (coefficient (word.getLsbD i)) * X ^ i

/-- A message as a polynomial, its first bit highest. -/
noncomputable def messagePoly (message : List Bool) : (ZMod 2)[X] :=
  message.foldl (fun front bit => X * front + C (coefficient bit)) 0

/-- A message of words as a polynomial. -/
noncomputable def wordsPoly (words : List (BitVec w)) : (ZMod 2)[X] :=
  messagePoly (words.flatMap fun word => leading word w)

/-- The polynomial of a check, with its highest term. -/
noncomputable def generator (poly : BitVec w) : (ZMod 2)[X] :=
  X ^ w + wordPoly poly

theorem coeff_wordPoly (word : BitVec w) (n : Nat) :
    (wordPoly word).coeff n = coefficient (word.getLsbD n) := by
  simp only [wordPoly, finsetSum_coeff, coeff_C_mul, coeff_X_pow, mul_ite,
    mul_one, mul_zero, Finset.sum_ite_eq, Finset.mem_range]
  split
  case isTrue => rfl
  case isFalse hge =>
    rw [BitVec.getLsbD_of_ge word n (Nat.le_of_not_lt hge), coefficient_false]

theorem degree_wordPoly_lt (word : BitVec w) : (wordPoly word).degree < w := by
  rw [degree_lt_iff_coeff_zero]
  intro n hn
  rw [coeff_wordPoly, BitVec.getLsbD_of_ge word n hn, coefficient_false]

theorem generator_monic (poly : BitVec w) : (generator poly).Monic :=
  monic_X_pow_add (degree_wordPoly_lt poly)

theorem degree_generator (poly : BitVec w) : (generator poly).degree = w := by
  rw [generator, degree_add_eq_left_of_degree_lt, degree_X_pow]
  rw [degree_X_pow]
  exact degree_wordPoly_lt poly

theorem messagePoly_concat (message : List Bool) (bit : Bool) :
    messagePoly (message ++ [bit]) =
      X * messagePoly message + C (coefficient bit) := by
  rw [messagePoly, List.foldl_append]
  rfl

/-- The bits after a step. -/
theorem getLsbD_step (poly crc : BitVec w) (bit : Bool) (n : Nat) :
    (step poly crc bit).getLsbD (n + 1) =
      ((decide (n + 1 < w) && crc.getLsbD n) ^^
        ((crc.msb ^^ bit) && poly.getLsbD (n + 1))) := by
  rw [step]
  cases crc.msb ^^ bit with
  | false => simp
  | true => simp

theorem getLsbD_step_zero (poly crc : BitVec w) (bit : Bool) :
    (step poly crc bit).getLsbD 0 =
      ((crc.msb ^^ bit) && poly.getLsbD 0) := by
  rw [step]
  cases crc.msb ^^ bit with
  | false => simp
  | true => simp

/-- A step takes the register and the next bit up by one place, and adds the
generator when a bit falls out. -/
theorem wordPoly_step (hw : 0 < w) (poly crc : BitVec w) (bit : Bool) :
    wordPoly (step poly crc bit) =
      X * wordPoly crc + C (coefficient bit) * X ^ w +
        C (coefficient (crc.msb ^^ bit)) * generator poly := by
  ext n
  rw [coeff_wordPoly, coeff_add, coeff_add, coeff_C_mul, coeff_C_mul,
    generator, coeff_add, coeff_X_pow, coeff_wordPoly]
  cases n with
  | zero =>
      rw [getLsbD_step_zero, coefficient_and, coeff_X_mul_zero,
        if_neg (Nat.ne_of_lt hw)]
      ring
  | succ n =>
      rw [getLsbD_step, coefficient_xor, coefficient_and, coefficient_and,
        coeff_X_mul, coeff_wordPoly]
      rcases Nat.lt_trichotomy (n + 1) w with hlt | heq | hgt
      · rw [if_neg (Nat.ne_of_lt hlt), decide_eq_true hlt, coefficient_true]
        ring
      · -- the bit that falls out meets the highest term
        have hmsb : crc.getLsbD n = crc.msb := by
          rw [BitVec.msb_eq_getLsbD_last]
          exact congrArg crc.getLsbD (Nat.eq_sub_of_add_eq heq)
        rw [if_pos heq, hmsb, decide_eq_false (by omega),
          BitVec.getLsbD_of_ge poly _ (Nat.le_of_eq heq.symm)]
        cases crc.msb <;> cases bit <;> decide
      · rw [if_neg (Nat.ne_of_gt hgt), decide_eq_false (by omega),
          BitVec.getLsbD_of_ge crc n (by omega), coefficient_false]
        ring

/-- The register after a message is its remainder. -/
theorem wordPoly_run (hw : 0 < w) (poly : BitVec w) (message : List Bool) :
    wordPoly (run poly 0#w message) =
      (messagePoly message * X ^ w) %ₘ generator poly := by
  have hquotient : ∃ quotient, wordPoly (run poly 0#w message) +
      generator poly * quotient = messagePoly message * X ^ w := by
    induction message using List.reverseRecOn with
    | nil =>
        refine ⟨0, ?_⟩
        have hzero : wordPoly (0#w) = 0 := by
          ext n
          rw [coeff_wordPoly, BitVec.getLsbD_zero, coefficient_false,
            coeff_zero]
        rw [mul_zero, add_zero]
        exact hzero.trans (zero_mul _).symm
    | append_singleton message bit ih =>
        obtain ⟨quotient, hmessage⟩ := ih
        have hlast : run poly 0#w (message ++ [bit]) =
            step poly (run poly 0#w message) bit := run_append ..
        refine ⟨X * quotient +
          C (coefficient ((run poly 0#w message).msb ^^ bit)), ?_⟩
        rw [hlast, wordPoly_step hw, messagePoly_concat]
        have htwice (p : (ZMod 2)[X]) : p + p = 0 := CharTwo.add_self_eq_zero p
        calc
          _ = X * (wordPoly (run poly 0#w message) +
                generator poly * quotient) +
              C (coefficient bit) * X ^ w +
              (C (coefficient ((run poly 0#w message).msb ^^ bit)) *
                  generator poly +
                C (coefficient ((run poly 0#w message).msb ^^ bit)) *
                  generator poly) := by ring
          _ = _ := by
            rw [htwice, hmessage]
            ring
  obtain ⟨quotient, hmessage⟩ := hquotient
  refine ((div_modByMonic_unique quotient _ (generator_monic poly)
    ⟨hmessage, ?_⟩).2).symm
  rw [degree_generator]
  exact degree_wordPoly_lt _

theorem wordPoly_eq_zero_iff (word : BitVec w) :
    wordPoly word = 0 ↔ word = 0#w := by
  have hbit : ∀ bit, coefficient bit = 0 ↔ bit = false := by decide
  rw [Polynomial.ext_iff]
  constructor
  · intro h
    apply BitVec.eq_of_getLsbD_eq
    intro n _
    have hcoeff := h n
    rw [coeff_wordPoly, coeff_zero, hbit] at hcoeff
    rw [hcoeff, BitVec.getLsbD_zero]
  · rintro rfl n
    rw [coeff_wordPoly, coeff_zero, BitVec.getLsbD_zero, coefficient_false]

/-- A generator with the term 0 has no divisor in common with `X`. -/
theorem isCoprime_generator (hw : 0 < w) {poly : BitVec w}
    (hlow : poly.getLsbD 0 = true) : IsCoprime (generator poly) (X ^ w) := by
  apply IsCoprime.pow_right
  apply IsCoprime.symm
  have hirreducible : Irreducible (X : (ZMod 2)[X]) := irreducible_X
  rw [hirreducible.coprime_iff_not_dvd, X_dvd_iff, generator, coeff_add,
    coeff_wordPoly, hlow, coeff_X_pow, if_neg (Nat.ne_of_lt hw)]
  decide

/-- The register is clear after the messages that the generator divides. -/
theorem run_eq_zero_iff (hw : 0 < w) {poly : BitVec w}
    (hlow : poly.getLsbD 0 = true) (message : List Bool) :
    run poly 0#w message = 0#w ↔ generator poly ∣ messagePoly message := by
  rw [← wordPoly_eq_zero_iff, wordPoly_run hw,
    modByMonic_eq_zero_iff_dvd (generator_monic poly)]
  exact ⟨(isCoprime_generator hw hlow).dvd_of_dvd_mul_right,
    fun h => h.mul_right (X ^ w)⟩

/-- The check is zero for the messages that the generator divides. -/
theorem check_eq_zero_iff (hw : 0 < w) {poly : BitVec w}
    (hlow : poly.getLsbD 0 = true) (words : List (BitVec w)) :
    check poly words = 0#w ↔ generator poly ∣ wordsPoly words :=
  run_eq_zero_iff hw hlow _

/-- The polynomial of a message with errors is that of the message and that of
the errors. -/
theorem messagePoly_xor {message errors : List Bool}
    (hlength : message.length = errors.length) :
    messagePoly (List.zipWith (· ^^ ·) message errors) =
      messagePoly message + messagePoly errors := by
  have hfront : ∀ front front' : (ZMod 2)[X],
      (List.zipWith (· ^^ ·) message errors).foldl
          (fun front bit => X * front + C (coefficient bit))
          (front + front') =
        message.foldl (fun front bit => X * front + C (coefficient bit))
            front +
          errors.foldl (fun front bit => X * front + C (coefficient bit))
            front' := by
    induction message generalizing errors with
    | nil =>
        rw [List.length_nil, eq_comm, List.length_eq_zero_iff] at hlength
        subst hlength
        exact fun _ _ => rfl
    | cons bit message ih =>
        cases errors with
        | nil => cases hlength
        | cons error errors =>
            intro front front'
            rw [List.zipWith_cons_cons, List.foldl_cons, List.foldl_cons,
              List.foldl_cons, ← ih (Nat.succ.inj hlength), coefficient_xor,
              C_add]
            congr 1
            ring
  have hzero := hfront 0 0
  rw [add_zero] at hzero
  exact hzero

theorem length_leading (word : BitVec w) (count : Nat) :
    (leading word count).length = count := by
  rw [leading, List.length_map, List.length_range]

theorem leading_xor (word error : BitVec w) (count : Nat) :
    leading (word ^^^ error) count =
      List.zipWith (· ^^ ·) (leading word count) (leading error count) := by
  simp [leading, List.zipWith_map, List.zipWith_self]

theorem wordsPoly_xor {words errors : List (BitVec w)}
    (hlength : words.length = errors.length) :
    wordsPoly (List.zipWith (· ^^^ ·) words errors) =
      wordsPoly words + wordsPoly errors := by
  have hbits : (List.zipWith (· ^^^ ·) words errors).flatMap
        (fun word => leading word w) =
      List.zipWith (· ^^ ·) (words.flatMap fun word => leading word w)
        (errors.flatMap fun word => leading word w) := by
    induction words generalizing errors with
    | nil => rfl
    | cons word words ih =>
        cases errors with
        | nil => cases hlength
        | cons error errors =>
            rw [List.zipWith_cons_cons, List.flatMap_cons, List.flatMap_cons,
              List.flatMap_cons, ih (Nat.succ.inj hlength), leading_xor,
              List.zipWith_append]
            rw [length_leading, length_leading]
  have hcount : ∀ words : List (BitVec w),
      (words.flatMap fun word => leading word w).length = words.length * w := by
    intro words
    simp [List.length_flatMap, length_leading]
  rw [wordsPoly, hbits, messagePoly_xor]
  · rfl
  · rw [hcount, hcount, hlength]

end SerialCrc

end Barley
