/-
Arithmetic of the fixed-width integers that the code computes with, on natural
numbers.
-/
import Mathlib.Tactic.Common
import Mathlib.Algebra.Ring.Nat
import Mathlib.Algebra.Ring.Int.Defs

namespace Barley

/-- Addition of `uint64_t` values. -/
def add64 (a b : Nat) : Nat := (a + b) % 2 ^ 64

/-- Subtraction of `uint64_t` values. -/
def sub64 (a b : Nat) : Nat := (a + (2 ^ 64 - b % 2 ^ 64)) % 2 ^ 64

/-- Conversion of a `uint64_t` to `int`: its low 32 bits, read as signed. -/
def toInt (n : Nat) : Int :=
  if n % 2 ^ 32 < 2 ^ 31 then (n % 2 ^ 32 : Nat)
  else (n % 2 ^ 32 : Nat) - 2 ^ 32

/-- Decrement of a `uint32_t`. -/
def dec32 (n : Nat) : Nat := (n + (2 ^ 32 - 1)) % 2 ^ 32

/-- Increment of a `uint32_t`. -/
def inc32 (n : Nat) : Nat := (n + 1) % 2 ^ 32

theorem toInt_sub64 {a b : Nat} (hlt : a < b + 2 ^ 31)
    (hle : b ≤ a + 2 ^ 31) : toInt (sub64 a b) = (a : Int) - b := by
  unfold toInt sub64
  split <;> omega

theorem toInt_eq {n : Nat} (h : n < 2 ^ 31) : toInt n = n := by
  unfold toInt
  rw [if_pos (by omega)]
  omega

theorem add64_eq {a b : Nat} (h : a + b < 2 ^ 64) : add64 a b = a + b :=
  Nat.mod_eq_of_lt h

theorem sub64_eq {a b : Nat} (hle : b ≤ a) (ha : a < 2 ^ 64) :
    sub64 a b = a - b := by
  unfold sub64
  omega

theorem sub64_self (a : Nat) : sub64 a a = 0 := by
  unfold sub64
  omega

theorem sub64_add64 (a : Nat) {b : Nat} (hb : b < 2 ^ 64) :
    sub64 (add64 a b) a = b := by
  unfold sub64 add64
  omega

theorem sub64_lt (a b : Nat) : sub64 a b < 2 ^ 64 :=
  Nat.mod_lt _ (Nat.two_pow_pos 64)

theorem dec32_eq {n : Nat} (hpos : 0 < n) (hlt : n < 2 ^ 32) :
    dec32 n = n - 1 := by
  unfold dec32
  omega

end Barley
