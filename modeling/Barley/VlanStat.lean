/-
The VLAN check of a packet and its counters.  A packet that carries the VLAN
computed for it is counted under the number of that VLAN in the configured
range, any other one as an error; each port has its half of the counters.
-/
import Mathlib.Algebra.BigOperators.Group.Finset.Piecewise
import Mathlib.Data.BitVec
import Barley.StatQueries
import Barley.VlanCheck

namespace Barley

/-- `xe0_stat_vlan_id_total`. -/
def xe0StatVlanIdTotal : Nat := 2

/-- `xe0_stat_vlan_id_error`. -/
def xe0StatVlanIdError : Nat := 3

/-- `xe0_stat_vlan_id_0`, the first of 256 counters. -/
def xe0StatVlanId0 : Nat := 4

/-- `frc_vlan_check_para_t`.  `frcore_cmd_vlan_check_set_para` takes over any
of these. -/
structure FrcVlanCheckPara where
  type : BitVec 8
  startId : BitVec 16
  num : BitVec 16

/-- The check type as the functions use it; there is none for other numbers. -/
def HashEm.ofType (type : BitVec 8) : Option HashEm :=
  match type.toNat with
  | 0 => some .null
  | 1 => some .sip
  | 2 => some .dip
  | 3 => some .sdip
  | _ => none

/-- A received packet: its port, the word that holds the VLAN tag, and its
addresses. -/
structure VlanCheckPkt where
  ipprt : Nat
  tci : BitVec 16
  pkt : IpPkt

section Check

variable (para : FrcVlanCheckPara) (masks : HashMasks)

/-- The number that picks the VLAN; an unknown type leaves it at zero. -/
def IpPkt.toEidType (pkt : IpPkt) : BitVec 32 :=
  match HashEm.ofType para.type with
  | some hash => pkt.toEidNew masks hash
  | none => 0

/-- `ip4_calc_vlan` and `ip6_calc_vlan`; `none` stands for a division by
zero. -/
def IpPkt.calcVlanPara (pkt : IpPkt) : Option (BitVec 32) :=
  if pkt.toEidType para masks = -1 then some (-1)
  else if para.num = 0 then none
  else
    some (Barley.calcVlan (pkt.toEidType para masks) (para.num.setWidth 32)
      (para.startId.setWidth 32))

/-- The width of `id_check`: 16 bits for version 6. -/
def IpPkt.cutId (vlan : BitVec 32) : IpPkt → BitVec 32
  | .ip4 _ => vlan
  | .ip6 _ => (vlan.setWidth 16).setWidth 32

/-- `id_check`. -/
def IpPkt.idCheck (pkt : IpPkt) : Option (BitVec 32) :=
  (pkt.calcVlanPara para masks).map fun vlan => pkt.cutId vlan

end Check

namespace VlanCheckPkt

/-- `vlan_id`. -/
def vlanId (p : VlanCheckPkt) : BitVec 16 := p.tci &&& 0xfff

/-- `vid`, a `uint16_t` that is passed on as a `uint8_t`. -/
def vid (para : FrcVlanCheckPara) (p : VlanCheckPkt) : BitVec 8 :=
  (p.vlanId - para.startId).setWidth 8

end VlanCheckPkt

/-- The counter of a port, as `FRCORE_PORT_VLAN_STAT_INC` picks it. -/
def portVlanStat (port cnt : Nat) : Nat :=
  if port = 0 then cnt else cnt + statVlanIdMax / 2

/-- `FRCORE_PORT_VLAN_STAT_INC`. -/
def portVlanStatInc (stat : Nat → BitVec 64) (port cnt : Nat) :
    Nat → BitVec 64 :=
  Function.update stat (portVlanStat port cnt)
    (stat (portVlanStat port cnt) + 1)

/-- `stat_vlan_check`. -/
def statVlanCheck (stat : Nat → BitVec 64) (vid : BitVec 8) (port : Nat) :
    Nat → BitVec 64 :=
  portVlanStatInc (portVlanStatInc stat port (xe0StatVlanId0 + vid.toNat)) port
    xe0StatVlanIdTotal

/-- `frcore_vlan_check_v4` and `frcore_vlan_check_v6`. -/
def frcoreVlanCheck (para : FrcVlanCheckPara) (masks : HashMasks)
    (stat : Nat → BitVec 64) (p : VlanCheckPkt) : Option (Nat → BitVec 64) :=
  (p.pkt.idCheck para masks).map fun idCheck =>
    if idCheck = p.vlanId.setWidth 32 then
      statVlanCheck stat (p.vid para) p.ipprt
    else portVlanStatInc stat p.ipprt xe0StatVlanIdError

/-- The packet carries the VLAN that was computed for it. -/
def VlanCheckPkt.Counted (para : FrcVlanCheckPara) (masks : HashMasks)
    (p : VlanCheckPkt) : Prop :=
  p.pkt.idCheck para masks = some (p.vlanId.setWidth 32)

instance (para : FrcVlanCheckPara) (masks : HashMasks) (p : VlanCheckPkt) :
    Decidable (p.Counted para masks) :=
  inferInstanceAs (Decidable (_ = _))

/-- The counter under which the packet is counted then. -/
def VlanCheckPkt.counter (para : FrcVlanCheckPara) (p : VlanCheckPkt) : Nat :=
  portVlanStat p.ipprt (xe0StatVlanId0 + (p.vid para).toNat)

/-- The sum of the counters of a port. -/
def vlanStatSum (stat : Nat → BitVec 64) (port : Nat) : BitVec 64 :=
  ∑ i ∈ Finset.range 256, stat (portVlanStat port (xe0StatVlanId0 + i))

/-- Two ports have the same counters. -/
def SameVlanPort (port port' : Nat) : Prop := port = 0 ↔ port' = 0

instance (port port' : Nat) : Decidable (SameVlanPort port port') :=
  inferInstanceAs (Decidable (_ ↔ _))

/-- The packets are checked without a division by zero, each one that is
counted has its counter in the array of its port, different VLANs have
different counters there, and the counters add up to the number of packets. -/
def VlanCheckExact (para : FrcVlanCheckPara) (masks : HashMasks)
    (packets : List VlanCheckPkt) : Prop :=
  ∃ stat, packets.foldlM (frcoreVlanCheck para masks) (fun _ => 0) =
      some stat ∧
    (∀ p ∈ packets, p.Counted para masks →
      portVlanStat p.ipprt xe0StatVlanId0 ≤ p.counter para ∧
        p.counter para < portVlanStat p.ipprt (statVlanIdMax / 2)) ∧
    (∀ p ∈ packets, ∀ q ∈ packets, p.Counted para masks →
      q.Counted para masks → SameVlanPort p.ipprt q.ipprt →
      p.vlanId ≠ q.vlanId → p.counter para ≠ q.counter para) ∧
    ∀ port, vlanStatSum stat port =
      BitVec.ofNat 64 (packets.countP fun p =>
        p.Counted para masks ∧ SameVlanPort p.ipprt port)

/-- What the parameters have to fulfil: there are VLANs to choose from, and
if the type tells packets apart, at most 256 or not more behind the first. -/
def FrcVlanCheckPara.Separates (para : FrcVlanCheckPara) : Prop :=
  (para.num.toNat ≠ 0 ∨ para.type.toNat = 0) ∧
    (para.num.toNat ≤ 256 ∨ 4096 ≤ para.startId.toNat + 256 ∨
      para.type.toNat = 0 ∨ 4 ≤ para.type.toNat)

end Barley
