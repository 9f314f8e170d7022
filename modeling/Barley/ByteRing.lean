/-
The byte ring that both sides of the bus share.  Its header and its data are
little-endian in memory; a big-endian side swaps the words of what it puts in
and of what it takes out, and the indexes.
-/
import Barley.StructLayout
import Barley.MachineWords
import Barley.RingWindow

namespace Barley

/-- `SWAP_8_BYTE`. -/
def swap8Byte (i : Nat) : Nat :=
  (i >>> 0 &&& 0xff) <<< 56 ||| (i >>> 8 &&& 0xff) <<< 48 |||
    (i >>> 16 &&& 0xff) <<< 40 ||| (i >>> 24 &&& 0xff) <<< 32 |||
    (i >>> 32 &&& 0xff) <<< 24 ||| (i >>> 40 &&& 0xff) <<< 16 |||
    (i >>> 48 &&& 0xff) <<< 8 ||| (i >>> 56 &&& 0xff) <<< 0

/-- The loop of `swap_buff`, over the words that remain. -/
def swapLoop (order : Endian) : Nat → List UInt8 → List UInt8
  | 0, bytes => bytes
  | count + 1, bytes =>
      Bytes.store order 8 (swap8Byte (Bytes.load order (bytes.take 8))) ++
        swapLoop order count (bytes.drop 8)

/-- `swap_buff`; its `len` is an `int`. -/
def swapBuff (order : Endian) (len : Int) (buff : List UInt8) : List UInt8 :=
  swapLoop order len.toNat buff

/-- `RING_BUFF_SIZE`. -/
def ringBuffSize : Nat := 2048 * 8

/-- The array `buff` of a ring. -/
abbrev RingBytes := Fin ringBuffSize → UInt8

namespace RingBytes

/-- The byte in a slot; behind the array there is none to read. -/
def byteAt (buff : RingBytes) (slot : Nat) : UInt8 :=
  if h : slot < ringBuffSize then buff ⟨slot, h⟩ else 0

/-- A `memcpy` out of the array.  One that leaves the array has no result. -/
def read (buff : RingBytes) (offset count : Nat) : Option (List UInt8) :=
  if offset + count ≤ ringBuffSize then
    some (Ring.read buff.byteAt offset count)
  else none

/-- A `memcpy` into the array.  One that leaves the array has no result. -/
def write (buff : RingBytes) (offset : Nat) (bytes : List UInt8) :
    Option RingBytes :=
  if offset + bytes.length ≤ ringBuffSize then
    some fun slot => Ring.write buff.byteAt offset bytes slot
  else none

end RingBytes

/-- `frc_ring_buff_t` in memory: the words of its header, and its array. -/
structure FrcRingBuff where
  size : List UInt8
  widx : List UInt8
  ridx : List UInt8
  buff : RingBytes

/-- `ring_size`, `ring_widx` and `ring_ridx` on the word that they read. -/
def ringWord : Endian → List UInt8 → Nat
  | .little, word => Bytes.load .little word
  | .big, word => swap8Byte (Bytes.load .big word)

/-- How a side stores an index. -/
def ringIndex : Endian → Nat → List UInt8
  | .little, idx => Bytes.store .little 8 idx
  | .big, idx => Bytes.store .big 8 (swap8Byte idx)

/-- A piece that `memcpy` has copied, after the `swap_buff` of a big-endian
side. -/
def ringPiece : Endian → List UInt8 → List UInt8
  | .little, piece => piece
  | .big, piece => swapBuff .big (toInt (piece.length >>> 3)) piece

/-- `__ring_put`. -/
def ringPut (order : Endian) (ring : FrcRingBuff) (buff : List UInt8)
    (len : Nat) : Option (Nat × FrcRingBuff) := do
  let size := ringWord order ring.size
  let ridx := ringWord order ring.ridx
  let widx := ringWord order ring.widx
  let len := min len (add64 (sub64 size widx) ridx)
  let l := min len (sub64 size (widx &&& sub64 size 1))
  let first ← ring.buff.write (widx &&& sub64 size 1)
    (ringPiece order (buff.take l))
  let both ← first.write 0
    (ringPiece order ((buff.drop l).take (sub64 len l)))
  return (len,
    { ring with buff := both, widx := ringIndex order (add64 widx len) })

/-- `__ring_get`, with the bytes that it leaves in the buffer of the caller. -/
def ringGet (order : Endian) (ring : FrcRingBuff) (len : Nat) :
    Option (Nat × List UInt8 × FrcRingBuff) := do
  let size := ringWord order ring.size
  let ridx := ringWord order ring.ridx
  let widx := ringWord order ring.widx
  let len := min len (sub64 widx ridx)
  let l := min len (sub64 size (ridx &&& sub64 size 1))
  let first ← ring.buff.read (ridx &&& sub64 size 1) l
  let second ← ring.buff.read 0 (sub64 len l)
  return (len, ringPiece order first ++ ringPiece order second,
    { ring with ridx := ringIndex order (add64 ridx len) })

namespace RingBytes

variable (buff : RingBytes) (offset : Nat)

theorem read_of_fits (count : Nat) (h : offset + count ≤ ringBuffSize) :
    buff.read offset count = some (Ring.read buff.byteAt offset count) :=
  if_pos h

/-- A write that stays inside changes the array as it would change an endless
one. -/
theorem write_of_fits (bytes : List UInt8)
    (h : offset + bytes.length ≤ ringBuffSize) :
    ∃ buff', buff.write offset bytes = some buff' ∧
      buff'.byteAt = Ring.write buff.byteAt offset bytes := by
  refine ⟨_, if_pos h, funext fun slot => ?_⟩
  rw [byteAt]
  split
  · rfl
  · have hbehind : offset + bytes.length ≤ slot := by omega
    have hnone : buff.byteAt slot = 0 := dif_neg ‹_›
    rw [Ring.write_of_outside _ (.inr hbehind), hnone]

end RingBytes

section Swap

theorem or_shiftLeft (x b k : Nat) (hb : b < 2 ^ 8) :
    x <<< (8 + k) ||| b <<< k = (x <<< 8 + b) <<< k := by
  rw [Nat.shiftLeft_add_eq_or_of_lt hb, Nat.shiftLeft_or_distrib,
    ← Nat.shiftLeft_add]

theorem and_byte_ofLittle (bytes : List UInt8) (k : Nat) :
    Bytes.ofLittle bytes >>> (8 * k) &&& 0xff = (bytes.getD k 0).toNat := by
  have hand : ∀ n : Nat, n &&& 0xff = n % 256 :=
    fun n => Nat.and_two_pow_sub_one_eq_mod n 8
  induction bytes generalizing k with
  | nil => rw [Bytes.ofLittle, Nat.zero_shiftRight, List.getD_nil]; rfl
  | cons byte rest ih =>
      have hbyte : byte.toNat < 256 := byte.toNat_lt
      cases k with
      | zero =>
          rw [hand, List.getD_cons_zero, Bytes.ofLittle, Nat.mul_zero,
            Nat.shiftRight_zero]
          omega
      | succ k =>
          have hdrop : (byte.toNat + 256 * Bytes.ofLittle rest) >>> 8 =
              Bytes.ofLittle rest := by
            rw [Nat.shiftRight_eq_div_pow]
            omega
          rw [List.getD_cons_succ, ← ih k, Bytes.ofLittle, Nat.mul_succ,
            Nat.add_comm (8 * k), Nat.shiftRight_add, hdrop]

/-- `SWAP_8_BYTE` reverses the bytes of a word. -/
theorem swap8Byte_ofLittle {word : List UInt8} (hlen : word.length = 8) :
    swap8Byte (Bytes.ofLittle word) = Bytes.ofLittle word.reverse := by
  match word, hlen with
  | [b0, b1, b2, b3, b4, b5, b6, b7], _ =>
      let value := Bytes.ofLittle [b0, b1, b2, b3, b4, b5, b6, b7]
      have hbyte := and_byte_ofLittle [b0, b1, b2, b3, b4, b5, b6, b7]
      have e0 : value >>> 0 &&& 0xff = b0.toNat := hbyte 0
      have e1 : value >>> 8 &&& 0xff = b1.toNat := hbyte 1
      have e2 : value >>> 16 &&& 0xff = b2.toNat := hbyte 2
      have e3 : value >>> 24 &&& 0xff = b3.toNat := hbyte 3
      have e4 : value >>> 32 &&& 0xff = b4.toNat := hbyte 4
      have e5 : value >>> 40 &&& 0xff = b5.toNat := hbyte 5
      have e6 : value >>> 48 &&& 0xff = b6.toNat := hbyte 6
      have e7 : value >>> 56 &&& 0xff = b7.toNat := hbyte 7
      have hlt : ∀ b : UInt8, b.toNat < 2 ^ 8 := fun b => b.toNat_lt
      rw [swap8Byte, e0, e1, e2, e3, e4, e5, e6, e7]
      -- the bytes are put together from the highest down
      rw [or_shiftLeft _ _ 48 (hlt b1), or_shiftLeft _ _ 40 (hlt b2),
        or_shiftLeft _ _ 32 (hlt b3), or_shiftLeft _ _ 24 (hlt b4),
        or_shiftLeft _ _ 16 (hlt b5), or_shiftLeft _ _ 8 (hlt b6),
        or_shiftLeft _ _ 0 (hlt b7)]
      simp only [Nat.shiftLeft_eq, List.reverse_cons, List.reverse_nil,
        List.nil_append, List.cons_append, Bytes.ofLittle]
      omega

/-- The swapped value, stored, is the reversed word. -/
theorem store_swap8Byte (order : Endian) {word : List UInt8}
    (hlen : word.length = 8) :
    Bytes.store order 8 (swap8Byte (Bytes.load order word)) =
      word.reverse := by
  have hrev : word.reverse.length = 8 := by rw [List.length_reverse, hlen]
  have hback := Bytes.store_load order word.reverse
  rw [hrev] at hback
  cases order with
  | little =>
      rw [Bytes.load, swap8Byte_ofLittle hlen]
      exact hback
  | big =>
      rw [Bytes.load, swap8Byte_ofLittle hrev]
      exact hback

theorem swapLoop_eq (order : Endian) (count : Nat) {bytes : List UInt8}
    (hcount : 8 * count ≤ bytes.length) :
    swapLoop order count bytes = Bytes.swapWords count bytes := by
  induction count generalizing bytes with
  | zero => rfl
  | succ count ih =>
      have hword : (bytes.take 8).length = 8 := by
        rw [List.length_take]
        omega
      have hrest : 8 * count ≤ (bytes.drop 8).length := by
        rw [List.length_drop]
        omega
      rw [swapLoop, Bytes.swapWords, store_swap8Byte order hword, ih hrest]

/-- Both sides read an index alike. -/
theorem ringWord_eq (order : Endian) {word : List UInt8}
    (hlen : word.length = 8) : ringWord order word = Bytes.load .little word := by
  cases order with
  | little => rfl
  | big =>
      have hrev : word.reverse.length = 8 := by rw [List.length_reverse, hlen]
      have hswap := swap8Byte_ofLittle hrev
      rw [List.reverse_reverse] at hswap
      exact hswap

/-- Both sides store an index alike. -/
theorem ringIndex_eq (order : Endian) {idx : Nat} (hidx : idx < 2 ^ 64) :
    ringIndex order idx = Bytes.store .little 8 idx := by
  cases order with
  | little => rfl
  | big =>
      have hlen := Bytes.length_store .little 8 idx
      have hload := Bytes.load_store .little (by simpa using hidx :
        idx < 256 ^ 8)
      have hswap := store_swap8Byte .big
        ((List.length_reverse).trans hlen :
          (Bytes.store .little 8 idx).reverse.length = 8)
      rw [Bytes.load_big_reverse, hload, List.reverse_reverse] at hswap
      exact hswap

end Swap

/-- The 64-bit words that a side sees in bytes. -/
def wordsFrom (order : Endian) : Nat → List UInt8 → List Nat
  | 0, _ => []
  | count + 1, bytes =>
      Bytes.load order (bytes.take 8) :: wordsFrom order count (bytes.drop 8)

def wordsOf (order : Endian) (bytes : List UInt8) : List Nat :=
  wordsFrom order (bytes.length / 8) bytes

section Words

variable (order : Endian)

theorem wordsFrom_append (count more : Nat) {bytes : List UInt8}
    (hlen : bytes.length = 8 * count) (rest : List UInt8) :
    wordsFrom order (count + more) (bytes ++ rest) =
      wordsFrom order count bytes ++ wordsFrom order more rest := by
  induction count generalizing bytes with
  | zero =>
      rw [List.eq_nil_of_length_eq_zero hlen, Nat.zero_add]
      rfl
  | succ count ih =>
      have hdrop : (bytes.drop 8).length = 8 * count := by
        rw [List.length_drop]
        omega
      have hword : 8 ≤ bytes.length := by omega
      rw [Nat.succ_add, wordsFrom, wordsFrom, List.cons_append,
        List.take_append_of_le_length hword,
        List.drop_append_of_le_length hword, ih hdrop]

theorem wordsOf_append {bytes : List UInt8} (hbytes : 8 ∣ bytes.length)
    (rest : List UInt8) :
    wordsOf order (bytes ++ rest) =
      wordsOf order bytes ++ wordsOf order rest := by
  obtain ⟨count, hcount⟩ := hbytes
  have hsum : (bytes ++ rest).length / 8 = count + rest.length / 8 := by
    rw [List.length_append]
    omega
  have hfirst : bytes.length / 8 = count := by omega
  rw [wordsOf, wordsOf, wordsOf, hsum, hfirst]
  exact wordsFrom_append order count _ hcount rest

theorem length_wordsOf (bytes : List UInt8) :
    (wordsOf order bytes).length = bytes.length / 8 := by
  have hfrom : ∀ count bytes, (wordsFrom order count bytes).length = count := by
    intro count
    induction count with
    | zero => exact fun _ => rfl
    | succ count ih =>
        intro bytes
        rw [wordsFrom, List.length_cons, ih]
  exact hfrom _ bytes

theorem length_swapWords (count : Nat) (bytes : List UInt8) :
    (Bytes.swapWords count bytes).length = bytes.length := by
  induction count generalizing bytes with
  | zero => rfl
  | succ count ih =>
      rw [Bytes.swapWords, List.length_append, List.length_reverse, ih,
        List.length_take, List.length_drop]
      omega

/-- Swapped words read the same in the other order. -/
theorem wordsFrom_swapWords (count : Nat) {bytes : List UInt8}
    (hlen : bytes.length = 8 * count) :
    wordsFrom .little count (Bytes.swapWords count bytes) =
        wordsFrom .big count bytes ∧
      wordsFrom .big count (Bytes.swapWords count bytes) =
        wordsFrom .little count bytes := by
  induction count generalizing bytes with
  | zero => exact ⟨rfl, rfl⟩
  | succ count ih =>
      have hdrop : (bytes.drop 8).length = 8 * count := by
        rw [List.length_drop]
        omega
      have hword : (bytes.take 8).reverse.length = 8 := by
        rw [List.length_reverse, List.length_take]
        omega
      have htake : (Bytes.swapWords (count + 1) bytes).take 8 =
          (bytes.take 8).reverse :=
        List.take_left' hword
      have hrest : (Bytes.swapWords (count + 1) bytes).drop 8 =
          Bytes.swapWords count (bytes.drop 8) :=
        List.drop_left' hword
      simp only [wordsFrom, htake, hrest, (ih hdrop).1, (ih hdrop).2,
        Bytes.load_big_reverse, and_true]
      rw [Bytes.load, Bytes.load]

variable {order} {piece : List UInt8} (hpiece : piece.length ≤ ringBuffSize)

include hpiece

/-- The words of a piece fit the `int` that `swap_buff` takes. -/
theorem ringPiece_big :
    ringPiece .big piece = Bytes.swapWords (piece.length / 8) piece := by
  have hcount : piece.length >>> 3 = piece.length / 8 :=
    Nat.shiftRight_eq_div_pow _ 3
  have hbound : ringBuffSize = 16384 := rfl
  have hsmall : piece.length / 8 < 2 ^ 31 := by omega
  rw [ringPiece, swapBuff, hcount, toInt_eq hsmall, Int.toNat_natCast]
  exact swapLoop_eq .big _ (Nat.mul_div_le _ 8)

theorem length_ringPiece : (ringPiece order piece).length = piece.length := by
  cases order with
  | little => rfl
  | big =>
      rw [ringPiece_big hpiece]
      exact length_swapWords _ piece

variable (order) in
/-- A piece holds in memory, little-endian, the words that its side sees. -/
theorem wordsOf_ringPiece (hdvd : 8 ∣ piece.length) :
    wordsOf .little (ringPiece order piece) = wordsOf order piece ∧
      wordsOf order (ringPiece order piece) = wordsOf .little piece := by
  cases order with
  | little => exact ⟨rfl, rfl⟩
  | big =>
      have hlen := length_swapWords (piece.length / 8) piece
      rw [ringPiece_big hpiece, wordsOf, wordsOf, wordsOf, wordsOf, hlen]
      exact wordsFrom_swapWords _ (Nat.mul_div_cancel' hdvd).symm

end Words

end Barley
