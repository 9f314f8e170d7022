/-
The macros that take big-endian numbers from a buffer.  Each reads its bytes
from the start of the buffer and leaves the rest.
-/
import Barley.ByteOrder

namespace Barley

/-- The byte at distance `k` from the start of a buffer. -/
def byteAt (buf : List UInt8) (k : Nat) : Nat := (buf.getD k 0).toNat

/-- `UNPACK_U8`. -/
def unpackU8 (buf : List UInt8) : Nat × List UInt8 :=
  (byteAt buf 0 &&& 0xff, buf.drop 1)

/-- `UNPACK_U16`. -/
def unpackU16 (buf : List UInt8) : Nat × List UInt8 :=
  ((byteAt buf 0 &&& 0xff) <<< 8 ||| (byteAt buf 1 &&& 0xff), buf.drop 2)

/-- `UNPACK_U32`. -/
def unpackU32 (buf : List UInt8) : Nat × List UInt8 :=
  ((byteAt buf 0 &&& 0xff) <<< 24 ||| (byteAt buf 1 &&& 0xff) <<< 16 |||
    (byteAt buf 2 &&& 0xff) <<< 8 ||| (byteAt buf 3 &&& 0xff), buf.drop 4)

section Unpack

variable (b0 b1 b2 b3 : UInt8) (rest : List UInt8)

theorem and_byte (b : UInt8) : b.toNat &&& 0xff = b.toNat := by
  rw [show (0xff : Nat) = 2 ^ 8 - 1 from rfl, Nat.and_two_pow_sub_one_eq_mod]
  exact Nat.mod_eq_of_lt b.toNat_lt

theorem unpackU16_cons :
    unpackU16 (b0 :: b1 :: rest) = (b0.toNat * 256 + b1.toNat, rest) := by
  have h1 : b1.toNat < 2 ^ 8 := b1.toNat_lt
  simp only [unpackU16, byteAt, List.getD_cons_zero, List.getD_cons_succ,
    and_byte, List.drop_succ_cons, List.drop_zero]
  rw [← Nat.shiftLeft_add_eq_or_of_lt h1, Nat.shiftLeft_eq]

theorem unpackU32_cons :
    unpackU32 (b0 :: b1 :: b2 :: b3 :: rest) =
      (((b0.toNat * 256 + b1.toNat) * 256 + b2.toNat) * 256 + b3.toNat,
        rest) := by
  have h1 : b1.toNat < 2 ^ 8 := b1.toNat_lt
  have h2 : b2.toNat < 2 ^ 8 := b2.toNat_lt
  have h3 : b3.toNat < 2 ^ 8 := b3.toNat_lt
  simp only [unpackU32, byteAt, List.getD_cons_zero, List.getD_cons_succ,
    and_byte, List.drop_succ_cons, List.drop_zero, Prod.mk.injEq, and_true]
  have hfirst : b0.toNat <<< 24 ||| b1.toNat <<< 16 =
      (b0.toNat <<< 8 + b1.toNat) <<< 16 := by
    rw [Nat.shiftLeft_add_eq_or_of_lt h1, Nat.shiftLeft_or_distrib,
      ← Nat.shiftLeft_add]
  have hsecond : (b0.toNat <<< 8 + b1.toNat) <<< 16 ||| b2.toNat <<< 8 =
      ((b0.toNat <<< 8 + b1.toNat) <<< 8 + b2.toNat) <<< 8 := by
    rw [Nat.shiftLeft_add_eq_or_of_lt h2, Nat.shiftLeft_or_distrib,
      ← Nat.shiftLeft_add]
  rw [hfirst, hsecond, ← Nat.shiftLeft_add_eq_or_of_lt h3, Nat.shiftLeft_eq,
    Nat.shiftLeft_eq, Nat.shiftLeft_eq]

end Unpack

section Loads

variable {bytes : List UInt8} (rest : List UInt8)

/-- `UNPACK_U16` is a big-endian load. -/
theorem unpackU16_append (h : bytes.length = 2) :
    unpackU16 (bytes ++ rest) = (Bytes.load .big bytes, rest) := by
  match bytes, h with
  | [b0, b1], _ =>
      rw [List.cons_append, List.singleton_append, unpackU16_cons]
      simp only [Bytes.load, List.reverse_cons, List.reverse_nil,
        List.nil_append, List.cons_append, Bytes.ofLittle, Prod.mk.injEq,
        and_true]
      omega

/-- `UNPACK_U32` is a big-endian load. -/
theorem unpackU32_append (h : bytes.length = 4) :
    unpackU32 (bytes ++ rest) = (Bytes.load .big bytes, rest) := by
  match bytes, h with
  | [b0, b1, b2, b3], _ =>
      simp only [List.cons_append, List.nil_append]
      rw [unpackU32_cons]
      simp only [Bytes.load, List.reverse_cons, List.reverse_nil,
        List.nil_append, List.cons_append, Bytes.ofLittle, Prod.mk.injEq,
        and_true]
      omega

end Loads

end Barley
