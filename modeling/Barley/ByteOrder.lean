/-
Numbers as bytes in memory, in either byte order.  The image of a number in
one order is the reverse of its image in the other.
-/
import Mathlib.Tactic.Common
import Mathlib.Data.Nat.Bitwise

namespace Barley

/-- The byte order of a machine. -/
inductive Endian where
  | little
  | big
deriving DecidableEq, Repr

namespace Bytes

/-- The lowest `width` bytes of a number, the lowest first. -/
def toLittle : (width value : Nat) → List UInt8
  | 0, _ => []
  | width + 1, value => UInt8.ofNat value :: toLittle width (value / 256)

/-- The number that bytes spell, the lowest first. -/
def ofLittle : List UInt8 → Nat
  | [] => 0
  | byte :: rest => byte.toNat + 256 * ofLittle rest

/-- What a store of a number of `width` bytes leaves in memory. -/
def store : Endian → (width value : Nat) → List UInt8
  | .little, width, value => toLittle width value
  | .big, width, value => (toLittle width value).reverse

/-- What a load finds in bytes of memory. -/
def load : Endian → List UInt8 → Nat
  | .little, bytes => ofLittle bytes
  | .big, bytes => ofLittle bytes.reverse

@[simp] theorem length_toLittle (width value : Nat) :
    (toLittle width value).length = width := by
  induction width generalizing value with
  | zero => rfl
  | succ width ih => rw [toLittle, List.length_cons, ih]

theorem ofLittle_toLittle (width value : Nat) :
    ofLittle (toLittle width value) = value % 256 ^ width := by
  induction width generalizing value with
  | zero => rw [Nat.pow_zero, Nat.mod_one, toLittle, ofLittle]
  | succ width ih =>
      have hbyte : (UInt8.ofNat value).toNat = value % 256 := rfl
      rw [toLittle, ofLittle, ih, hbyte, Nat.pow_succ, Nat.mul_comm (256 ^ width),
        Nat.mod_mul]

theorem ofLittle_lt (bytes : List UInt8) :
    ofLittle bytes < 256 ^ bytes.length := by
  induction bytes with
  | nil => exact Nat.one_pos
  | cons byte rest ih =>
      have hbyte : byte.toNat < 256 := byte.toNat_lt
      rw [ofLittle, List.length_cons, Nat.pow_succ]
      omega

theorem toLittle_ofLittle (bytes : List UInt8) :
    toLittle bytes.length (ofLittle bytes) = bytes := by
  induction bytes with
  | nil => rfl
  | cons byte rest ih =>
      have hbyte : byte.toNat < 256 := byte.toNat_lt
      have hrest : (byte.toNat + 256 * ofLittle rest) / 256 =
          ofLittle rest := by omega
      have hfirst : UInt8.ofNat (byte.toNat + 256 * ofLittle rest) = byte := by
        apply UInt8.toNat_inj.mp
        rw [UInt8.toNat_ofNat']
        omega
      rw [List.length_cons, ofLittle, toLittle, hfirst, hrest, ih]

@[simp] theorem length_store (order : Endian) (width value : Nat) :
    (store order width value).length = width := by
  cases order with
  | little => exact length_toLittle width value
  | big =>
      rw [store, List.length_reverse]
      exact length_toLittle width value

theorem load_store (order : Endian) {width value : Nat}
    (h : value < 256 ^ width) : load order (store order width value) = value := by
  cases order with
  | little =>
      rw [load, store, ofLittle_toLittle, Nat.mod_eq_of_lt h]
  | big =>
      rw [load, store, List.reverse_reverse, ofLittle_toLittle,
        Nat.mod_eq_of_lt h]

theorem store_load (order : Endian) (bytes : List UInt8) :
    store order bytes.length (load order bytes) = bytes := by
  cases order with
  | little => exact toLittle_ofLittle bytes
  | big =>
      have hback := toLittle_ofLittle bytes.reverse
      rw [List.length_reverse] at hback
      rw [store, load, hback, List.reverse_reverse]

theorem load_lt (order : Endian) (bytes : List UInt8) :
    load order bytes < 256 ^ bytes.length := by
  cases order with
  | little => exact ofLittle_lt bytes
  | big =>
      have hlt := ofLittle_lt bytes.reverse
      rw [List.length_reverse] at hlt
      exact hlt

/-- Reversed memory reads the same in the other order. -/
theorem load_big_reverse (bytes : List UInt8) :
    load .big bytes.reverse = load .little bytes := by
  rw [load, load, List.reverse_reverse]

end Bytes

end Barley
