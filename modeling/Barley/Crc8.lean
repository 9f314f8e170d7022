/-
The check byte of the test packets.  The card puts the check of a packet's data
behind the data; one tool on the host takes the check of all of it and expects
zero, the other takes the check without the last byte and compares.
-/
import Barley.CrcRemainder

namespace Barley

/-- `CRC8Table`. -/
def crc8Table : List (BitVec 8) :=
  [0x00, 0x07, 0x0e, 0x09, 0x1c, 0x1b, 0x12, 0x15, 0x38, 0x3f, 0x36, 0x31,
   0x24, 0x23, 0x2a, 0x2d, 0x70, 0x77, 0x7e, 0x79, 0x6c, 0x6b, 0x62, 0x65,
   0x48, 0x4f, 0x46, 0x41, 0x54, 0x53, 0x5a, 0x5d, 0xe0, 0xe7, 0xee, 0xe9,
   0xfc, 0xfb, 0xf2, 0xf5, 0xd8, 0xdf, 0xd6, 0xd1, 0xc4, 0xc3, 0xca, 0xcd,
   0x90, 0x97, 0x9e, 0x99, 0x8c, 0x8b, 0x82, 0x85, 0xa8, 0xaf, 0xa6, 0xa1,
   0xb4, 0xb3, 0xba, 0xbd, 0xc7, 0xc0, 0xc9, 0xce, 0xdb, 0xdc, 0xd5, 0xd2,
   0xff, 0xf8, 0xf1, 0xf6, 0xe3, 0xe4, 0xed, 0xea, 0xb7, 0xb0, 0xb9, 0xbe,
   0xab, 0xac, 0xa5, 0xa2, 0x8f, 0x88, 0x81, 0x86, 0x93, 0x94, 0x9d, 0x9a,
   0x27, 0x20, 0x29, 0x2e, 0x3b, 0x3c, 0x35, 0x32, 0x1f, 0x18, 0x11, 0x16,
   0x03, 0x04, 0x0d, 0x0a, 0x57, 0x50, 0x59, 0x5e, 0x4b, 0x4c, 0x45, 0x42,
   0x6f, 0x68, 0x61, 0x66, 0x73, 0x74, 0x7d, 0x7a, 0x89, 0x8e, 0x87, 0x80,
   0x95, 0x92, 0x9b, 0x9c, 0xb1, 0xb6, 0xbf, 0xb8, 0xad, 0xaa, 0xa3, 0xa4,
   0xf9, 0xfe, 0xf7, 0xf0, 0xe5, 0xe2, 0xeb, 0xec, 0xc1, 0xc6, 0xcf, 0xc8,
   0xdd, 0xda, 0xd3, 0xd4, 0x69, 0x6e, 0x67, 0x60, 0x75, 0x72, 0x7b, 0x7c,
   0x51, 0x56, 0x5f, 0x58, 0x4d, 0x4a, 0x43, 0x44, 0x19, 0x1e, 0x17, 0x10,
   0x05, 0x02, 0x0b, 0x0c, 0x21, 0x26, 0x2f, 0x28, 0x3d, 0x3a, 0x33, 0x34,
   0x4e, 0x49, 0x40, 0x47, 0x52, 0x55, 0x5c, 0x5b, 0x76, 0x71, 0x78, 0x7f,
   0x6a, 0x6d, 0x64, 0x63, 0x3e, 0x39, 0x30, 0x37, 0x22, 0x25, 0x2c, 0x2b,
   0x06, 0x01, 0x08, 0x0f, 0x1a, 0x1d, 0x14, 0x13, 0xae, 0xa9, 0xa0, 0xa7,
   0xb2, 0xb5, 0xbc, 0xbb, 0x96, 0x91, 0x98, 0x9f, 0x8a, 0x8d, 0x84, 0x83,
   0xde, 0xd9, 0xd0, 0xd7, 0xc2, 0xc5, 0xcc, 0xcb, 0xe6, 0xe1, 0xe8, 0xef,
   0xfa, 0xfd, 0xf4, 0xf3]

/-- `cal_crc`. -/
def calCrc (bytes : List (BitVec 8)) : BitVec 8 :=
  bytes.foldl (fun crc byte => crc8Table.getD (crc ^^^ byte).toNat 0) 0

/-- The data that `frcore_forward_simple_pkt_to_fifo_test` and
`frcore_ssn_chan_pkt_to_fifo_test` make of random bytes. -/
def testPktData (bytes : List (BitVec 8)) : List (BitVec 8) :=
  bytes ++ [calCrc bytes]

/-- `chan_udp_pkt_check`. -/
def chanUdpPktCheck (data : List (BitVec 8)) : Bool :=
  if calCrc data ≠ 0 then false else true

/-- `chan_ssn_pkt_check`. -/
def chanSsnPktCheck (data : List (BitVec 8)) : Bool :=
  if calCrc data.dropLast ≠ data.getLastD 0 then false else true

/-- The polynomial of the table, without its highest term. -/
def crc8Poly : BitVec 8 := 0x07

/-- The numbers of the table are what eight steps make of their indexes. -/
theorem crc8Table_eq : crc8Table = (List.range 256).map fun index =>
    SerialCrc.run crc8Poly (BitVec.ofNat 8 index) (List.replicate 8 false) := by
  decide +kernel

theorem crc8Table_isTable :
    SerialCrc.IsTable crc8Poly fun index => crc8Table.getD index.toNat 0 := by
  intro index
  have hlt : index.toNat < 256 := index.isLt
  change crc8Table.getD index.toNat 0 = _
  rw [crc8Table_eq, List.getD_eq_getElem?_getD, List.getElem?_map,
    List.getElem?_range hlt, Option.map_some, Option.getD_some,
    BitVec.ofNat_toNat, BitVec.setWidth_eq]

theorem calCrc_eq_check (bytes : List (BitVec 8)) :
    calCrc bytes = SerialCrc.check crc8Poly bytes :=
  SerialCrc.foldl_table crc8Poly crc8Table_isTable 0 bytes

section Remainder

open Polynomial

theorem generator_crc8Poly :
    SerialCrc.generator crc8Poly = X ^ 8 + (X ^ 2 + X + 1) := by
  have hword : SerialCrc.wordPoly crc8Poly = 1 + X + X ^ 2 := by
    simp [SerialCrc.wordPoly, crc8Poly, Finset.sum_range_succ,
      SerialCrc.coefficient]
  rw [SerialCrc.generator, hword]
  ring

/-- The check is zero for the data that the polynomial with the terms 8, 2, 1
and 0 divides. -/
theorem calCrc_eq_zero_iff (data : List (BitVec 8)) :
    calCrc data = 0 ↔
      (X ^ 8 + (X ^ 2 + X + 1)) ∣ SerialCrc.wordsPoly data := by
  rw [calCrc_eq_check, ← generator_crc8Poly]
  exact SerialCrc.check_eq_zero_iff (by decide) (by decide) data

end Remainder

theorem calCrc_ne_of_byte {byte other : BitVec 8} (h : byte ≠ other)
    (before after : List (BitVec 8)) :
    calCrc (before ++ byte :: after) ≠ calCrc (before ++ other :: after) := by
  rw [calCrc_eq_check, calCrc_eq_check]
  exact SerialCrc.check_ne_of_word (by decide) h before after

theorem calCrc_set_ne {bytes : List (BitVec 8)} {i : Nat}
    (hi : i < bytes.length) {other : BitVec 8} (hne : other ≠ bytes[i]) :
    calCrc (bytes.set i other) ≠ calCrc bytes := by
  have hbytes : bytes = bytes.take i ++ bytes[i] :: bytes.drop (i + 1) := by
    rw [← List.drop_eq_getElem_cons hi, List.take_append_drop]
  rw [List.set_eq_take_append_cons_drop, if_pos hi]
  conv_rhs => rw [hbytes]
  exact calCrc_ne_of_byte hne _ _

theorem calCrc_concat_eq_zero_iff (bytes : List (BitVec 8)) (byte : BitVec 8) :
    calCrc (bytes ++ [byte]) = 0 ↔ calCrc bytes = byte := by
  rw [calCrc_eq_check, calCrc_eq_check]
  exact SerialCrc.check_concat_eq_zero_iff (by decide) bytes byte

section Tools

open Polynomial

theorem chanUdpPktCheck_iff (data : List (BitVec 8)) :
    chanUdpPktCheck data = true ↔ calCrc data = 0 := by
  rw [chanUdpPktCheck]
  split
  · exact iff_of_false Bool.false_ne_true ‹_›
  · exact iff_of_true rfl (not_not.mp ‹_›)

/-- Both tools accept the same data. -/
theorem chanUdpPktCheck_eq_ssn {data : List (BitVec 8)} (h : data ≠ []) :
    chanUdpPktCheck data = chanSsnPktCheck data := by
  have hsplit := List.dropLast_concat_getLast h
  have hiff := calCrc_concat_eq_zero_iff data.dropLast (data.getLast h)
  rw [hsplit] at hiff
  rw [chanUdpPktCheck, chanSsnPktCheck, List.getLastD_eq_getLast?,
    List.getLast?_eq_some_getLast h, Option.getD_some]
  simp only [ne_eq, hiff]

/-- Both tools miss exactly the errors that the polynomial divides, whatever
the card has put into the block. -/
theorem chanPktChecks_miss_iff (bytes errors : List (BitVec 8))
    (hlength : errors.length = bytes.length + 1) :
    (chanUdpPktCheck (List.zipWith (· ^^^ ·) (testPktData bytes) errors) =
        true ↔ (X ^ 8 + (X ^ 2 + X + 1)) ∣ SerialCrc.wordsPoly errors) ∧
      (chanSsnPktCheck (List.zipWith (· ^^^ ·) (testPktData bytes) errors) =
        true ↔ (X ^ 8 + (X ^ 2 + X + 1)) ∣ SerialCrc.wordsPoly errors) := by
  have hsent : (testPktData bytes).length = errors.length := by
    rw [testPktData, List.length_append, List.length_singleton, hlength]
  have hwhole : (X ^ 8 + (X ^ 2 + X + 1)) ∣
      SerialCrc.wordsPoly (testPktData bytes) :=
    (calCrc_eq_zero_iff _).mp ((calCrc_concat_eq_zero_iff bytes _).mpr rfl)
  have hne : List.zipWith (· ^^^ ·) (testPktData bytes) errors ≠ [] := by
    apply List.ne_nil_of_length_pos
    rw [List.length_zipWith, ← hsent, Nat.min_self, testPktData,
      List.length_append]
    exact Nat.lt_add_left _ Nat.one_pos
  rw [← chanUdpPktCheck_eq_ssn hne, and_self, chanUdpPktCheck_iff,
    calCrc_eq_zero_iff, SerialCrc.wordsPoly_xor hsent]
  exact dvd_add_right hwhole

/-- Errors with the bits of the polynomial are missed, and a wrong last bit is
not. -/
theorem chanPktChecks_miss_digits :
    (X ^ 8 + (X ^ 2 + X + 1)) ∣
        SerialCrc.wordsPoly [(0 : BitVec 8), 0x02, 0x0e] ∧
      ¬ (X ^ 8 + (X ^ 2 + X + 1)) ∣
        SerialCrc.wordsPoly [(0 : BitVec 8), 0, 0x01] :=
  ⟨(chanPktChecks_miss_iff [0x31, 0x32] [0, 0x02, 0x0e] rfl).1.mp (by decide),
    fun h => absurd ((chanPktChecks_miss_iff [0x31, 0x32] [0, 0, 0x01] rfl).2.mpr
      h) (by decide)⟩

end Tools

/-- The table's check is the one computed bit by bit, and shows every change
that stays inside of one byte. -/
theorem calCrc_serial (bytes : List (BitVec 8)) :
    calCrc bytes = SerialCrc.check crc8Poly bytes ∧
      ∀ i (hi : i < bytes.length) (other : BitVec 8), other ≠ bytes[i] →
        calCrc (bytes.set i other) ≠ calCrc bytes :=
  ⟨calCrc_eq_check bytes, fun _ hi _ hne => calCrc_set_ne hi hne⟩

/-- The check of the digits from one to nine, and of them with a wrong one. -/
theorem calCrc_serial_digits :
    SerialCrc.check crc8Poly
        [0x31, 0x32, 0x33, 0x34, 0x35, 0x36, 0x37, 0x38, 0x39] = 0xf4 ∧
      calCrc [0x31, 0x32, 0x33, 0x34, 0x30, 0x36, 0x37, 0x38, 0x39] ≠
        calCrc [0x31, 0x32, 0x33, 0x34, 0x35, 0x36, 0x37, 0x38, 0x39] := by
  obtain ⟨hserial, hset⟩ := calCrc_serial
    [0x31, 0x32, 0x33, 0x34, 0x35, 0x36, 0x37, 0x38, 0x39]
  refine ⟨hserial.symm.trans (by decide), ?_⟩
  exact hset 4 (by decide) 0x30 (by decide)

end Barley
