/-
The VLAN of a packet in the build that picks address bits and looks them up in
a table.  By source and destination together, both directions of a flow get the
same VLAN, as they do with equal masks in the build with masks.
-/
import Barley.VlanCheck

namespace Barley

namespace VlanTable

/-- `ip4b8`. -/
def ip4b8 : List Nat := [0, 2, 4, 6, 8, 12, 16, 24]

/-- `ip4b4`. -/
def ip4b4 : List Nat := [0, 4, 8, 16]

/-- `ip6b8`. -/
def ip6b8 : List Nat := [0, 2, 4, 8, 16, 24, 32, 48]

/-- `ip6b4`. -/
def ip6b4 : List Nat := [0, 4, 8, 16]

/-- `SDIP_MAX_NUM`. -/
def sdipMaxNum : Nat := 256

/-- `E0`. -/
def e0 : BitVec 32 := 2001

/-- `EMAX4`. -/
def emax4 : BitVec 32 := 256

/-- `sdip_vlan_index`, one line for each value of the four upper bits. -/
def sdipVlanIndex : List Nat := [
  0, 1, 2, 3, 4, 5, 6, 7, 8, 9, 10, 11, 12, 13, 14, 15,
  1, 16, 17, 18, 19, 20, 21, 22, 23, 24, 25, 26, 27, 28, 29, 30,
  2, 17, 31, 32, 33, 34, 35, 36, 37, 38, 39, 40, 41, 42, 43, 44,
  3, 18, 32, 45, 46, 47, 48, 49, 50, 51, 52, 53, 54, 55, 56, 57,
  4, 19, 33, 46, 58, 59, 60, 61, 62, 63, 64, 65, 66, 67, 68, 69,
  5, 20, 34, 47, 59, 70, 71, 72, 73, 74, 75, 76, 77, 78, 79, 80,
  6, 21, 35, 48, 60, 71, 81, 82, 83, 84, 85, 86, 87, 88, 89, 90,
  7, 22, 36, 49, 61, 72, 82, 91, 92, 93, 94, 95, 96, 97, 98, 99,
  8, 23, 37, 50, 62, 73, 83, 92, 0, 100, 101, 102, 103, 104, 105, 106,
  9, 24, 38, 51, 63, 74, 84, 93, 100, 16, 107, 108, 109, 110, 111, 112,
  10, 25, 39, 52, 64, 75, 85, 94, 101, 107, 31, 113, 114, 115, 116, 117,
  11, 26, 40, 53, 65, 76, 86, 95, 102, 108, 113, 45, 118, 119, 120, 121,
  12, 27, 41, 54, 66, 77, 87, 96, 103, 109, 114, 118, 58, 122, 123, 124,
  13, 28, 42, 55, 67, 78, 88, 97, 104, 110, 115, 119, 122, 70, 125, 126,
  14, 29, 43, 56, 68, 79, 89, 98, 105, 111, 116, 120, 123, 125, 81, 127,
  15, 30, 44, 57, 69, 80, 90, 99, 106, 112, 117, 121, 124, 126, 127, 91]

/-- `BIT_SET`. -/
def bitSet (v : BitVec 32) (b : Nat) (val : Bool) : BitVec 32 :=
  if val then v ||| ((1 : BitVec 32) <<< b) else v &&& ~~~((1 : BitVec 32) <<< b)

/-- A loop that sets the low bits of the number. -/
def bitsSet (eid : BitVec 32) (vals : List Bool) : BitVec 32 :=
  vals.zipIdx.foldl (fun v val => bitSet v val.2 val.1) eid

/-- The bits of an IPv4 address at the given places. -/
def ip4Bits (data : BitVec 32) (places : List Nat) : List Bool :=
  places.map fun b => data.getLsbD b

/-- The bits of an IPv6 address, `BIT_GET(ip32[3 - b / 32], b % 32)`. -/
def ip6Bits (data : BcmIp6) (places : List Nat) : List Bool :=
  places.map fun b =>
    (BitVec.ofNat 32 (Bytes.load .big
      ((data.toList.drop (4 * (3 - b / 32))).take 4))).getLsbD (b % 32)

/-- The index into the table: the number is signed. -/
def sdipIndex (sip dip : List Bool) : Int :=
  (bitsSet (bitsSet 0 sip <<< 4) dip).toInt.tmod sdipMaxNum

/-- The table at an index; `none` when that is outside. -/
def sdipLookup (index : Int) : Option (BitVec 32) :=
  if 0 ≤ index then (sdipVlanIndex[index.toNat]?).map (BitVec.ofNat 32)
  else none

/-- `ip4_to_eid`. -/
def ip4ToEid (pkt : Ip4Pkt) : HashEm → Option (BitVec 32)
  | .null => some (-1)
  | .sip => some (bitsSet 0 (ip4Bits pkt.sipData (ip4b8.take 7)))
  | .dip => some (bitsSet 0 (ip4Bits pkt.dipData (ip4b8.take 7)))
  | .sdip =>
      sdipLookup (sdipIndex (ip4Bits pkt.sipData ip4b4)
        (ip4Bits pkt.dipData ip4b4))

/-- `ip6_to_eid`. -/
def ip6ToEid (pkt : Ip6Pkt) : HashEm → Option (BitVec 32)
  | .null => some (-1)
  | .sip => some (bitsSet 0 (ip6Bits pkt.sip6Data (ip6b8.take 7)))
  | .dip => some (bitsSet 0 (ip6Bits pkt.dip6Data (ip6b8.take 7)))
  | .sdip =>
      sdipLookup (sdipIndex (ip6Bits pkt.sip6Data ip6b4)
        (ip6Bits pkt.dip6Data ip6b4))

/-- `eid_to_vlan`, with what is added for the version. -/
def eidToVlan (eid version vlanN vlan0 : BitVec 32) (hash : HashEm) :
    BitVec 32 :=
  if hash = .sdip then eid % vlanN + vlan0
  else (eid + version) % vlanN + vlan0

/-- What `ip4_calc_vlan` and `ip6_calc_vlan` do with the number. -/
def calcVlan (eid version vlanN vlan0 : BitVec 32) (hash : HashEm) :
    BitVec 32 :=
  if eid = -1 then -1
  else if 4095 < (eidToVlan eid version vlanN vlan0 hash).toInt then -1
  else eidToVlan eid version vlanN vlan0 hash

/-- `ip4_calc_vlan`. -/
def ip4CalcVlan (pkt : Ip4Pkt) (hash : HashEm) (vlanN vlan0 : BitVec 32) :
    Option (BitVec 32) :=
  (ip4ToEid pkt hash).map fun eid => calcVlan eid e0 vlanN vlan0 hash

/-- `ip6_calc_vlan`. -/
def ip6CalcVlan (pkt : Ip6Pkt) (hash : HashEm) (vlanN vlan0 : BitVec 32) :
    Option (BitVec 32) :=
  (ip6ToEid pkt hash).map fun eid => calcVlan eid (e0 + emax4) vlanN vlan0 hash

/-- Four bits as a number. -/
def nibble (vals : List Bool) : Nat :=
  (bitsSet 0 vals).toNat

/-- Four bits of each address make the number of a line and a place in it. -/
theorem sdipIndex_nibbles (s0 s1 s2 s3 d0 d1 d2 d3 : Bool) :
    nibble [s0, s1, s2, s3] < 16 ∧
      sdipIndex [s0, s1, s2, s3] [d0, d1, d2, d3] =
        16 * nibble [s0, s1, s2, s3] + nibble [d0, d1, d2, d3] := by
  revert s0 s1 s2 s3 d0 d1 d2 d3
  decide +kernel

/-- The table is symmetric. -/
theorem sdipVlanIndex_symm : ∀ h < 16, ∀ l < 16,
    sdipVlanIndex[16 * h + l]? = sdipVlanIndex[16 * l + h]? := by
  decide +kernel

theorem bits_eq {sip : List Bool} (h : sip.length = 4) :
    ∃ s0 s1 s2 s3, sip = [s0, s1, s2, s3] := by
  match sip, h with
  | [s0, s1, s2, s3], _ => exact ⟨s0, s1, s2, s3, rfl⟩

section Symmetry

variable {sip dip : List Bool} (hsip : sip.length = 4) (hdip : dip.length = 4)

include hsip hdip

theorem sdipIndex_eq : nibble sip < 16 ∧ nibble dip < 16 ∧
    sdipIndex sip dip = 16 * nibble sip + nibble dip := by
  obtain ⟨s0, s1, s2, s3, rfl⟩ := bits_eq hsip
  obtain ⟨d0, d1, d2, d3, rfl⟩ := bits_eq hdip
  obtain ⟨hs, hindex⟩ := sdipIndex_nibbles s0 s1 s2 s3 d0 d1 d2 d3
  exact ⟨hs, (sdipIndex_nibbles d0 d1 d2 d3 s0 s1 s2 s3).1, hindex⟩

/-- The index is inside the table. -/
theorem sdipIndex_inside :
    0 ≤ sdipIndex sip dip ∧ sdipIndex sip dip < sdipVlanIndex.length := by
  obtain ⟨hs, hd, hindex⟩ := sdipIndex_eq hsip hdip
  have hlength : sdipVlanIndex.length = 256 := by decide +kernel
  rw [hindex, hlength]
  omega

theorem sdipLookup_isSome : (sdipLookup (sdipIndex sip dip)).isSome := by
  obtain ⟨hle, hlt⟩ := sdipIndex_inside hsip hdip
  rw [sdipLookup, if_pos hle, Option.isSome_map,
    List.getElem?_eq_getElem (by omega)]
  rfl

theorem sdipLookup_comm :
    sdipLookup (sdipIndex sip dip) = sdipLookup (sdipIndex dip sip) := by
  obtain ⟨hs, hd, hindex⟩ := sdipIndex_eq hsip hdip
  obtain ⟨_, _, hindex'⟩ := sdipIndex_eq hdip hsip
  have hnat : ∀ a b : Nat, (16 * (a : Int) + b).toNat = 16 * a + b := by
    intro a b
    omega
  rw [hindex, hindex', sdipLookup, sdipLookup, if_pos (by omega),
    if_pos (by omega), hnat, hnat, sdipVlanIndex_symm _ hs _ hd]

end Symmetry

end VlanTable

/-- A packet of the other direction. -/
def Ip4Pkt.swap (pkt : Ip4Pkt) : Ip4Pkt := ⟨pkt.dipData, pkt.sipData⟩

def Ip6Pkt.swap (pkt : Ip6Pkt) : Ip6Pkt := ⟨pkt.dip6Data, pkt.sip6Data⟩

theorem toEid_sdip_comm (sip dip : BitVec 32) :
    toEid .sdip sip dip = toEid .sdip dip sip :=
  BitVec.add_comm sip dip

/-- The bits that `ip4_to_eid` and `ip6_to_eid` use give an index inside the
table, both directions of a flow get the same VLAN from the table, and with
equal masks also in the build with masks. -/
theorem sdip_direction_symmetric (pkt4 : Ip4Pkt) (pkt6 : Ip6Pkt)
    (masks : HashMasks) (vlanN vlan0 : BitVec 32) :
    (VlanTable.ip4ToEid pkt4 .sdip).isSome ∧
    (VlanTable.ip6ToEid pkt6 .sdip).isSome ∧
    VlanTable.ip4CalcVlan pkt4.swap .sdip vlanN vlan0 =
      VlanTable.ip4CalcVlan pkt4 .sdip vlanN vlan0 ∧
    VlanTable.ip6CalcVlan pkt6.swap .sdip vlanN vlan0 =
      VlanTable.ip6CalcVlan pkt6 .sdip vlanN vlan0 ∧
    (masks.hashSip4Mask = masks.hashDip4Mask →
      ip4CalcVlan masks pkt4.swap .sdip vlanN vlan0 =
        ip4CalcVlan masks pkt4 .sdip vlanN vlan0) ∧
    (masks.hashSip6Mask = masks.hashDip6Mask →
      ip6CalcVlan masks pkt6.swap .sdip vlanN vlan0 =
        ip6CalcVlan masks pkt6 .sdip vlanN vlan0) := by
  refine ⟨?_, ?_, ?_, ?_, ?_, ?_⟩
  · exact VlanTable.sdipLookup_isSome rfl rfl
  · exact VlanTable.sdipLookup_isSome rfl rfl
  · rw [VlanTable.ip4CalcVlan, VlanTable.ip4CalcVlan]
    exact congrArg _ (VlanTable.sdipLookup_comm rfl rfl)
  · rw [VlanTable.ip6CalcVlan, VlanTable.ip6CalcVlan]
    exact congrArg _ (VlanTable.sdipLookup_comm rfl rfl)
  · intro hmask
    rw [ip4CalcVlan, ip4CalcVlan, ip4ToEidNew, ip4ToEidNew, hmask,
      toEid_sdip_comm]
    rfl
  · intro hmask
    rw [ip6CalcVlan, ip6CalcVlan, ip6ToEidNew, ip6ToEidNew, hmask,
      toEid_sdip_comm]
    rfl

/-- A packet and its answer, with masks that keep every bit. -/
theorem sdip_direction_symmetric_full :
    ip4CalcVlan fullMasks (Ip4Pkt.swap ⟨0x0a000001#32, 0xc0a80105#32⟩) .sdip 16
        100 =
      ip4CalcVlan fullMasks ⟨0x0a000001#32, 0xc0a80105#32⟩ .sdip 16 100 ∧
    ip6CalcVlan fullMasks
        (Ip6Pkt.swap ⟨Vector.replicate 16 1, Vector.replicate 16 2⟩) .sdip 16
        100 =
      ip6CalcVlan fullMasks ⟨Vector.replicate 16 1, Vector.replicate 16 2⟩ .sdip
        16 100 := by
  obtain ⟨_, _, _, _, h4, h6⟩ := sdip_direction_symmetric
    ⟨0x0a000001#32, 0xc0a80105#32⟩
    ⟨Vector.replicate 16 1, Vector.replicate 16 2⟩ fullMasks 16 100
  exact ⟨h4 rfl, h6 rfl⟩

end Barley
