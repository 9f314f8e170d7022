/-
The VLAN that a packet should carry.  The masked addresses are folded to one
32-bit number, which picks a VLAN of the configured range; the number with all
bits set is taken for an error.
-/
import Barley.FrcPack

namespace Barley

/-- `HASH_EM`, the check types. -/
inductive HashEm where
  | null
  | sip
  | dip
  | sdip
deriving DecidableEq, Repr

/-- `ip4_pkt_t`. -/
structure Ip4Pkt where
  sipData : BitVec 32
  dipData : BitVec 32

/-- `bcm_ip6_t`, the bytes of an address. -/
abbrev BcmIp6 := Vector UInt8 16

/-- `ip6_pkt_t`. -/
structure Ip6Pkt where
  sip6Data : BcmIp6
  dip6Data : BcmIp6

/-- The masks that the host sets. -/
structure HashMasks where
  hashSip4Mask : BitVec 32
  hashDip4Mask : BitVec 32
  hashSip6Mask : BcmIp6
  hashDip6Mask : BcmIp6

/-- `&=` on every byte. -/
def BcmIp6.masked (data mask : BcmIp6) : BcmIp6 :=
  data.zipWith (· &&& ·) mask

/-- The loop that unpacks the words of an address and folds each into the
next: what it leaves in the last one. -/
def ip6Fold (data : BcmIp6) : Nat :=
  let first := unpackU32 data.toList
  let second := unpackU32 first.2
  let third := unpackU32 second.2
  let fourth := unpackU32 third.2
  fourth.1 ^^^ (third.1 ^^^ (second.1 ^^^ first.1))

/-- The choice of `ip4_to_eid_new` and `ip6_to_eid_new`. -/
def toEid (hash : HashEm) (sip dip : BitVec 32) : BitVec 32 :=
  match hash with
  | .null => -1
  | .sip => sip
  | .dip => dip
  | .sdip => sip + dip

/-- `ip4_to_eid_new`. -/
def ip4ToEidNew (masks : HashMasks) (pkt : Ip4Pkt) (hash : HashEm) :
    BitVec 32 :=
  toEid hash (pkt.sipData &&& masks.hashSip4Mask)
    (pkt.dipData &&& masks.hashDip4Mask)

/-- `ip6_to_eid_new`. -/
def ip6ToEidNew (masks : HashMasks) (pkt : Ip6Pkt) (hash : HashEm) :
    BitVec 32 :=
  toEid hash
    (BitVec.ofNat 32 (ip6Fold (pkt.sip6Data.masked masks.hashSip6Mask)))
    (BitVec.ofNat 32 (ip6Fold (pkt.dip6Data.masked masks.hashDip6Mask)))

/-- `eid_to_vlan_new`. -/
def eidToVlanNew (eid vlanN vlan0 : BitVec 32) : BitVec 32 :=
  eid % vlanN + vlan0

/-- What `ip4_calc_vlan` and `ip6_calc_vlan` do with the number; `eid` and
`vlanid` are signed there. -/
def calcVlan (eid vlanN vlan0 : BitVec 32) : BitVec 32 :=
  if eid = -1 then -1
  else
    let vlanid := eidToVlanNew eid vlanN vlan0
    if 4095 < vlanid.toInt then -1 else vlanid

/-- `ip4_calc_vlan`. -/
def ip4CalcVlan (masks : HashMasks) (pkt : Ip4Pkt) (hash : HashEm)
    (vlanN vlan0 : BitVec 32) : BitVec 32 :=
  calcVlan (ip4ToEidNew masks pkt hash) vlanN vlan0

/-- `ip6_calc_vlan`. -/
def ip6CalcVlan (masks : HashMasks) (pkt : Ip6Pkt) (hash : HashEm)
    (vlanN vlan0 : BitVec 32) : BitVec 32 :=
  calcVlan (ip6ToEidNew masks pkt hash) vlanN vlan0

/-- A packet of either version. -/
inductive IpPkt where
  | ip4 (pkt : Ip4Pkt)
  | ip6 (pkt : Ip6Pkt)

def IpPkt.calcVlan (masks : HashMasks) (hash : HashEm)
    (vlanN vlan0 : BitVec 32) : IpPkt → BitVec 32
  | .ip4 pkt => ip4CalcVlan masks pkt hash vlanN vlan0
  | .ip6 pkt => ip6CalcVlan masks pkt hash vlanN vlan0

/-- The four words of an address, as numbers, combined by exclusive or. -/
def xorWords (data : BcmIp6) : Nat :=
  Bytes.load .big (data.toList.take 4) ^^^
    Bytes.load .big ((data.toList.drop 4).take 4) ^^^
    Bytes.load .big ((data.toList.drop 8).take 4) ^^^
    Bytes.load .big ((data.toList.drop 12).take 4)

/-- What the masked source counts as. -/
def IpPkt.source (masks : HashMasks) : IpPkt → Nat
  | .ip4 pkt => (pkt.sipData &&& masks.hashSip4Mask).toNat
  | .ip6 pkt => xorWords (pkt.sip6Data.masked masks.hashSip6Mask)

/-- What the masked destination counts as. -/
def IpPkt.destination (masks : HashMasks) : IpPkt → Nat
  | .ip4 pkt => (pkt.dipData &&& masks.hashDip4Mask).toNat
  | .ip6 pkt => xorWords (pkt.dip6Data.masked masks.hashDip6Mask)

/-- The number that decides about the VLAN of a packet. -/
def IpPkt.eid (masks : HashMasks) (pkt : IpPkt) : HashEm → Nat
  | .null => 0
  | .sip => pkt.source masks
  | .dip => pkt.destination masks
  | .sdip => (pkt.source masks + pkt.destination masks) % 2 ^ 32

theorem ip6Fold_eq (data : BcmIp6) : ip6Fold data = xorWords data := by
  have hlen : data.toList.length = 16 := data.length_toList
  have hword : ∀ k, k + 4 ≤ 16 → unpackU32 (data.toList.drop k) =
      (Bytes.load .big ((data.toList.drop k).take 4),
        data.toList.drop (k + 4)) := by
    intro k hk
    have htake : ((data.toList.drop k).take 4).length = 4 := by
      rw [List.length_take, List.length_drop, hlen]
      omega
    have hunpack := unpackU32_append ((data.toList.drop k).drop 4) htake
    rw [List.take_append_drop, List.drop_drop] at hunpack
    exact hunpack
  have hfirst := hword 0 (by decide)
  rw [List.drop_zero, Nat.zero_add] at hfirst
  simp only [ip6Fold, xorWords, hfirst, hword 4 (by decide),
    hword 8 (by decide), hword 12 (by decide)]
  ac_rfl

theorem xorWords_lt (data : BcmIp6) : xorWords data < 2 ^ 32 := by
  have hword : ∀ k, Bytes.load .big ((data.toList.drop k).take 4) <
      2 ^ 32 := by
    intro k
    refine Nat.lt_of_lt_of_le (Bytes.load_lt _ _) ?_
    have hlen : ((data.toList.drop k).take 4).length ≤ 4 :=
      List.length_take_le 4 _
    exact Nat.le_trans (Nat.pow_le_pow_right (by decide) hlen)
      (by decide : 256 ^ 4 ≤ 2 ^ 32)
  have hfirst := hword 0
  rw [List.drop_zero] at hfirst
  exact Nat.xor_lt_two_pow (Nat.xor_lt_two_pow
    (Nat.xor_lt_two_pow hfirst (hword 4)) (hword 8)) (hword 12)

theorem toNat_ip6Fold (data : BcmIp6) :
    (BitVec.ofNat 32 (ip6Fold data)).toNat = xorWords data := by
  rw [ip6Fold_eq, BitVec.toNat_ofNat, Nat.mod_eq_of_lt (xorWords_lt data)]

/-- The choice of the check type, on numbers. -/
theorem toNat_toEid {hash : HashEm} (hhash : hash ≠ .null)
    (sip dip : BitVec 32) :
    (toEid hash sip dip).toNat = match hash with
      | .null => 0
      | .sip => sip.toNat
      | .dip => dip.toNat
      | .sdip => (sip.toNat + dip.toNat) % 2 ^ 32 := by
  cases hash with
  | null => exact absurd rfl hhash
  | sip => rfl
  | dip => rfl
  | sdip => exact BitVec.toNat_add sip dip

/-- The number that the code folds a packet to. -/
def IpPkt.toEidNew (masks : HashMasks) (hash : HashEm) : IpPkt → BitVec 32
  | .ip4 pkt => ip4ToEidNew masks pkt hash
  | .ip6 pkt => ip6ToEidNew masks pkt hash

theorem IpPkt.calcVlan_eq (masks : HashMasks) (hash : HashEm)
    (vlanN vlan0 : BitVec 32) (pkt : IpPkt) :
    pkt.calcVlan masks hash vlanN vlan0 =
      Barley.calcVlan (pkt.toEidNew masks hash) vlanN vlan0 := by
  cases pkt with
  | ip4 pkt => rfl
  | ip6 pkt => rfl

theorem IpPkt.toNat_toEidNew (masks : HashMasks) {hash : HashEm}
    (hhash : hash ≠ .null) (pkt : IpPkt) :
    (pkt.toEidNew masks hash).toNat = pkt.eid masks hash := by
  cases pkt with
  | ip4 pkt =>
      rw [IpPkt.toEidNew, ip4ToEidNew, toNat_toEid hhash]
      cases hash <;> rfl
  | ip6 pkt =>
      rw [IpPkt.toEidNew, ip6ToEidNew, toNat_toEid hhash]
      simp only [toNat_ip6Fold]
      cases hash <;> rfl

/-- A VLAN of the configured range, the one that the number picks. -/
def VlanAssigned (vlanid vlanN vlan0 : BitVec 32) (eid : Nat) : Prop :=
  vlanid.toNat = vlan0.toNat + eid % vlanN.toNat ∧
    vlan0.toNat ≤ vlanid.toNat ∧
    vlanid.toNat < vlan0.toNat + vlanN.toNat ∧
    vlanid ≠ -1

section Assigned

variable {eid vlanN vlan0 : BitVec 32}

variable (eid) in
theorem toNat_eidToVlanNew (hn : 0 < vlanN.toNat)
    (hrange : vlan0.toNat + vlanN.toNat ≤ 4096) :
    (eidToVlanNew eid vlanN vlan0).toNat =
      vlan0.toNat + eid.toNat % vlanN.toNat := by
  have hmod := Nat.mod_lt eid.toNat hn
  rw [eidToVlanNew, BitVec.toNat_add, BitVec.toNat_umod, Nat.add_comm]
  exact Nat.mod_eq_of_lt (by omega)

theorem calcVlan_of_ne (hn : 0 < vlanN.toNat)
    (hrange : vlan0.toNat + vlanN.toNat ≤ 4096) (heid : eid ≠ -1) :
    calcVlan eid vlanN vlan0 = eidToVlanNew eid vlanN vlan0 := by
  have hmod := Nat.mod_lt eid.toNat hn
  have hvlan := toNat_eidToVlanNew eid hn hrange
  have hsmall : ¬ 4095 < (eidToVlanNew eid vlanN vlan0).toInt := by
    rw [BitVec.toInt_eq_toNat_cond, hvlan]
    split <;> omega
  rw [calcVlan, if_neg heid]
  exact if_neg hsmall

theorem vlanAssigned_calcVlan (hn : 0 < vlanN.toNat)
    (hrange : vlan0.toNat + vlanN.toNat ≤ 4096) :
    VlanAssigned (calcVlan eid vlanN vlan0) vlanN vlan0 eid.toNat ↔
      eid ≠ -1 := by
  constructor
  · -- with all bits set, the error value comes back
    rintro ⟨-, -, -, hne⟩ rfl
    exact hne (if_pos rfl)
  · intro heid
    have hmod := Nat.mod_lt eid.toNat hn
    have hvlan := toNat_eidToVlanNew eid hn hrange
    rw [calcVlan_of_ne hn hrange heid]
    refine ⟨hvlan, by omega, by omega, ?_⟩
    intro herror
    have herrorNat : (eidToVlanNew eid vlanN vlan0).toNat = 2 ^ 32 - 1 := by
      rw [herror]
      rfl
    omega

end Assigned

/-- A packet gets the VLAN that its number picks, unless that number has all
bits set. -/
theorem calcVlan_assigned_iff (masks : HashMasks) (pkt : IpPkt)
    {hash : HashEm} (hhash : hash ≠ .null) {vlanN vlan0 : BitVec 32}
    (hn : 0 < vlanN.toNat) (hrange : vlan0.toNat + vlanN.toNat ≤ 4096) :
    VlanAssigned (pkt.calcVlan masks hash vlanN vlan0) vlanN vlan0
        (pkt.eid masks hash) ↔
      pkt.eid masks hash ≠ 2 ^ 32 - 1 := by
  have hnat := pkt.toNat_toEidNew masks hhash
  have hall : pkt.toEidNew masks hash ≠ -1 ↔
      pkt.eid masks hash ≠ 2 ^ 32 - 1 := by
    rw [← hnat]
    exact not_congr BitVec.toNat_inj.symm
  rw [pkt.calcVlan_eq, ← hall, ← hnat]
  exact vlanAssigned_calcVlan hn hrange

/-- Masks that keep every bit. -/
def fullMasks : HashMasks where
  hashSip4Mask := -1
  hashDip4Mask := -1
  hashSip6Mask := Vector.replicate 16 255
  hashDip6Mask := Vector.replicate 16 255

/-- A packet from 10.0.0.1 to the broadcast address. -/
def broadcastPkt : IpPkt := .ip4 ⟨0x0a000001#32, 0xffffffff#32⟩

theorem calcVlan_assigned_iff_broadcast :
    VlanAssigned (broadcastPkt.calcVlan fullMasks .sip 16 100) 16 100
      (broadcastPkt.eid fullMasks .sip) :=
  (calcVlan_assigned_iff fullMasks broadcastPkt (by decide) (by decide)
    (by decide)).mpr (by decide)

/-- By its destination, the broadcast packet is an error. -/
theorem broadcastPkt_not_assigned :
    broadcastPkt.calcVlan fullMasks .dip 16 100 = -1 ∧
      ¬ VlanAssigned (broadcastPkt.calcVlan fullMasks .dip 16 100) 16 100
        (broadcastPkt.eid fullMasks .dip) := by
  have herror : broadcastPkt.calcVlan fullMasks .dip 16 100 = -1 := by decide
  exact ⟨herror, fun hassigned => hassigned.2.2.2 herror⟩

end Barley
