/-
For which parameters the VLAN check counts exactly, whatever packets come.
-/
import Barley.VlanStat

namespace Barley

section Counters

variable (stat : Nat → BitVec 64)

theorem portVlanStatInc_apply (port cnt slot : Nat) :
    portVlanStatInc stat port cnt slot =
      stat slot + if slot = portVlanStat port cnt then 1 else 0 := by
  rw [portVlanStatInc, Function.update_apply]
  split
  case isTrue h => rw [h]
  case isFalse => rw [add_zero]

theorem portVlanStat_inj {port port' cnt cnt' : Nat}
    (hcnt : cnt < statVlanIdMax / 2) (hcnt' : cnt' < statVlanIdMax / 2) :
    portVlanStat port cnt = portVlanStat port' cnt' ↔
      SameVlanPort port port' ∧ cnt = cnt' := by
  rw [portVlanStat, portVlanStat, SameVlanPort]
  split <;> split <;> omega

/-- What an increment does to the sum of a port. -/
theorem vlanStatSum_inc (port port' : Nat) {cnt : Nat}
    (hcnt : cnt < statVlanIdMax / 2) :
    vlanStatSum (portVlanStatInc stat port cnt) port' =
      vlanStatSum stat port' +
        if xe0StatVlanId0 ≤ cnt ∧ SameVlanPort port port' then 1 else 0 := by
  simp only [vlanStatSum, portVlanStatInc_apply]
  rw [Finset.sum_add_distrib, add_right_inj]
  have hslot : ∀ i ∈ Finset.range 256,
      (if portVlanStat port' (xe0StatVlanId0 + i) = portVlanStat port cnt then
        (1 : BitVec 64) else 0) =
      if i = cnt - xe0StatVlanId0 then
        if xe0StatVlanId0 ≤ cnt ∧ SameVlanPort port port' then 1 else 0
      else 0 := by
    intro i hi
    rw [Finset.mem_range] at hi
    have hinj : portVlanStat port' (xe0StatVlanId0 + i) =
        portVlanStat port cnt ↔
        SameVlanPort port' port ∧ xe0StatVlanId0 + i = cnt := by
      refine portVlanStat_inj ?_ hcnt
      simp only [statVlanIdMax, xe0StatVlanId0]
      omega
    have hsame : SameVlanPort port' port ↔ SameVlanPort port port' :=
      Iff.comm
    by_cases heq : i = cnt - xe0StatVlanId0
    · rw [if_pos heq]
      refine if_congr (hinj.trans ?_) rfl rfl
      rw [hsame, and_comm]
      refine and_congr_left fun _ => ?_
      omega
    · rw [if_neg heq, if_neg]
      rw [hinj]
      rintro ⟨_, hcnt'⟩
      exact heq (by omega)
  rw [Finset.sum_congr rfl hslot, Finset.sum_ite_eq', if_pos]
  rw [Finset.mem_range]
  simp only [statVlanIdMax, xe0StatVlanId0] at hcnt ⊢
  omega

end Counters

section Packets

variable {para : FrcVlanCheckPara} {masks : HashMasks} {p : VlanCheckPkt}

theorem frcoreVlanCheck_of_counted {stat : Nat → BitVec 64}
    (h : p.Counted para masks) :
    frcoreVlanCheck para masks stat p =
      some (statVlanCheck stat (p.vid para) p.ipprt) := by
  rw [VlanCheckPkt.Counted] at h
  rw [frcoreVlanCheck, h, Option.map_some, if_pos rfl]

theorem vid_lt (para : FrcVlanCheckPara) (p : VlanCheckPkt) :
    xe0StatVlanId0 + (p.vid para).toNat < statVlanIdMax / 2 := by
  have hlt := (p.vid para).isLt
  simp only [xe0StatVlanId0, statVlanIdMax]
  omega

/-- What a packet does to the sum of a port. -/
theorem vlanStatSum_frcoreVlanCheck {stat next : Nat → BitVec 64}
    (h : frcoreVlanCheck para masks stat p = some next) (port : Nat) :
    vlanStatSum next port = vlanStatSum stat port +
      if p.Counted para masks ∧ SameVlanPort p.ipprt port then 1 else 0 := by
  have htotal : xe0StatVlanIdTotal < statVlanIdMax / 2 := by decide
  have herror : xe0StatVlanIdError < statVlanIdMax / 2 := by decide
  by_cases hcounted : p.Counted para masks
  · rw [frcoreVlanCheck_of_counted hcounted, Option.some.injEq] at h
    subst h
    have hnone : ¬ (xe0StatVlanId0 ≤ xe0StatVlanIdTotal ∧
        SameVlanPort p.ipprt port) := fun h => absurd h.1 (by decide)
    rw [statVlanCheck, vlanStatSum_inc _ _ _ htotal, if_neg hnone, add_zero,
      vlanStatSum_inc _ _ _ (vid_lt para p)]
    simp only [hcounted, true_and, Nat.le_add_right]
  · rw [frcoreVlanCheck, Option.map_eq_some_iff] at h
    obtain ⟨idCheck, hid, hnext⟩ := h
    have hne : idCheck ≠ p.vlanId.setWidth 32 := by
      rintro rfl
      exact hcounted hid
    rw [if_neg hne] at hnext
    subst hnext
    rw [vlanStatSum_inc _ _ _ herror, if_neg fun h => absurd h.1 (by decide),
      if_neg fun h => hcounted h.1]

theorem vlanStatSum_run {packets : List VlanCheckPkt}
    {stat final : Nat → BitVec 64}
    (h : packets.foldlM (frcoreVlanCheck para masks) stat = some final)
    (port : Nat) :
    vlanStatSum final port = vlanStatSum stat port +
      BitVec.ofNat 64 (packets.countP fun p =>
        p.Counted para masks ∧ SameVlanPort p.ipprt port) := by
  induction packets generalizing stat with
  | nil =>
      cases h
      exact (add_zero _).symm
  | cons p rest ih =>
      rw [List.foldlM_cons] at h
      obtain ⟨next, hnext, hrest⟩ := Option.bind_eq_some_iff.mp h
      rw [ih hrest, vlanStatSum_frcoreVlanCheck hnext, List.countP_cons,
        add_assoc, add_right_inj, add_comm, BitVec.ofNat_add, add_right_inj]
      simp only [decide_eq_true_eq]
      split
      · rfl
      · rfl

/-- The VLAN that a number picks; the sum has 17 bits. -/
theorem toNat_calcVlan {eid : BitVec 32} (heid : eid ≠ -1)
    (hnum : para.num.toNat ≠ 0) :
    calcVlan eid (para.num.setWidth 32) (para.startId.setWidth 32) =
      if 4095 < eid.toNat % para.num.toNat + para.startId.toNat then -1
      else BitVec.ofNat 32 (eid.toNat % para.num.toNat + para.startId.toNat) := by
  have hmod := Nat.mod_lt eid.toNat (Nat.pos_of_ne_zero hnum)
  have hnumLt := para.num.isLt
  have hstartLt := para.startId.isLt
  have hvlan : eidToVlanNew eid (para.num.setWidth 32)
      (para.startId.setWidth 32) =
      BitVec.ofNat 32 (eid.toNat % para.num.toNat + para.startId.toNat) := by
    refine BitVec.eq_of_toNat_eq ?_
    rw [eidToVlanNew, BitVec.toNat_add, BitVec.toNat_umod,
      BitVec.toNat_setWidth, BitVec.toNat_setWidth, BitVec.toNat_ofNat]
    rw [Nat.mod_eq_of_lt (by omega : para.num.toNat < 2 ^ 32),
      Nat.mod_eq_of_lt (by omega : para.startId.toNat < 2 ^ 32)]
  rw [calcVlan, if_neg heid, hvlan]
  refine if_congr ?_ rfl rfl
  rw [BitVec.toInt_eq_toNat_cond, BitVec.toNat_ofNat,
    Nat.mod_eq_of_lt (by omega), if_pos (by omega)]
  omega

theorem vlanId_le (p : VlanCheckPkt) : p.vlanId.toNat ≤ 4095 := by
  rw [VlanCheckPkt.vlanId, BitVec.toNat_and]
  exact Nat.and_le_right

/-- Comparing 16 bits is enough: the error value is no VLAN either way. -/
theorem cutId_eq_iff {vlan : BitVec 32} (h : vlan = -1 ∨ vlan.toNat ≤ 4095)
    (pkt : IpPkt) (p : VlanCheckPkt) :
    pkt.cutId vlan = p.vlanId.setWidth 32 ↔ vlan.toNat = p.vlanId.toNat := by
  have hle := vlanId_le p
  rw [← BitVec.toNat_inj, BitVec.toNat_setWidth,
    Nat.mod_eq_of_lt (by omega : p.vlanId.toNat < 2 ^ 32)]
  cases pkt with
  | ip4 pkt => rfl
  | ip6 pkt =>
      rw [IpPkt.cutId, BitVec.toNat_setWidth, BitVec.toNat_setWidth]
      rcases h with rfl | hvlan
      · have herror : (-1 : BitVec 32).toNat = 2 ^ 32 - 1 := rfl
        rw [herror]
        omega
      · omega

/-- A packet is counted when the VLAN it carries is the one picked by its
number. -/
theorem counted_iff : p.Counted para masks ↔
    p.pkt.toEidType para masks ≠ -1 ∧ para.num.toNat ≠ 0 ∧
      p.vlanId.toNat = (p.pkt.toEidType para masks).toNat % para.num.toNat +
        para.startId.toNat := by
  have hle := vlanId_le p
  have herror : (-1 : BitVec 32).toNat = 2 ^ 32 - 1 := rfl
  rw [VlanCheckPkt.Counted, IpPkt.idCheck, IpPkt.calcVlanPara]
  by_cases heid : p.pkt.toEidType para masks = -1
  · rw [if_pos heid, Option.map_some, Option.some.injEq,
      cutId_eq_iff (.inl rfl), herror]
    exact iff_of_false (by omega) fun h => h.1 heid
  rw [if_neg heid]
  by_cases hnum : para.num = 0
  · rw [if_pos hnum]
    exact iff_of_false nofun fun h => h.2.1 (hnum ▸ rfl)
  have hnum' : para.num.toNat ≠ 0 := fun h => hnum (BitVec.eq_of_toNat_eq h)
  rw [if_neg hnum, Option.map_some, Option.some.injEq,
    toNat_calcVlan heid hnum']
  by_cases hlarge : 4095 < (p.pkt.toEidType para masks).toNat %
      para.num.toNat + para.startId.toNat
  · rw [if_pos hlarge, cutId_eq_iff (.inl rfl), herror]
    exact iff_of_false (by omega) fun h => by omega
  · have hsmall : (BitVec.ofNat 32 ((p.pkt.toEidType para masks).toNat %
        para.num.toNat + para.startId.toNat)).toNat =
        (p.pkt.toEidType para masks).toNat % para.num.toNat +
          para.startId.toNat := by
      rw [BitVec.toNat_ofNat, Nat.mod_eq_of_lt (by omega)]
    rw [if_neg hlarge, cutId_eq_iff (.inr (by omega)), hsmall]
    exact ⟨fun h => ⟨heid, hnum', h.symm⟩, fun h => h.2.2.symm⟩

/-- The number under which a packet is counted, cut to eight bits. -/
theorem toNat_vid (h : p.Counted para masks) :
    (p.vid para).toNat =
      (p.pkt.toEidType para masks).toNat % para.num.toNat % 256 := by
  obtain ⟨_, hnum, hvlan⟩ := counted_iff.mp h
  have hmod := Nat.mod_lt (p.pkt.toEidType para masks).toNat
    (Nat.pos_of_ne_zero hnum)
  have hnumLt := para.num.isLt
  have hstartLt := para.startId.isLt
  rw [VlanCheckPkt.vid, BitVec.toNat_setWidth, BitVec.toNat_sub, hvlan]
  omega

theorem toEidType_unknown (htype : 4 ≤ para.type.toNat) (pkt : IpPkt) :
    pkt.toEidType para masks = 0 := by
  have hnone : HashEm.ofType para.type = none := by
    obtain ⟨k, hk⟩ := Nat.exists_eq_add_of_le' htype
    simp only [HashEm.ofType, hk]
  rw [IpPkt.toEidType, hnone]

theorem toEidType_null (htype : para.type.toNat = 0) (pkt : IpPkt) :
    pkt.toEidType para masks = -1 := by
  have hsome : HashEm.ofType para.type = some .null := by
    simp only [HashEm.ofType, htype]
  rw [IpPkt.toEidType, hsome]
  cases pkt with
  | ip4 pkt => rfl
  | ip6 pkt => rfl

theorem frcoreVlanCheck_isSome_iff (stat : Nat → BitVec 64) :
    (frcoreVlanCheck para masks stat p).isSome ↔
      p.pkt.toEidType para masks = -1 ∨ para.num.toNat ≠ 0 := by
  have hzero : para.num = 0 ↔ para.num.toNat = 0 := BitVec.toNat_inj.symm
  rw [frcoreVlanCheck, IpPkt.idCheck, IpPkt.calcVlanPara, Option.isSome_map,
    Option.isSome_map]
  by_cases heid : p.pkt.toEidType para masks = -1
  · rw [if_pos heid]
    exact iff_of_true rfl (.inl heid)
  · rw [if_neg heid]
    by_cases hnum : para.num = 0
    · rw [if_pos hnum]
      exact iff_of_false nofun fun h => h.elim heid fun h => h (hzero.mp hnum)
    · rw [if_neg hnum]
      exact iff_of_true rfl (.inr fun h => hnum (hzero.mpr h))

theorem frcoreVlanCheck_run_isSome {packets : List VlanCheckPkt}
    (h : ∀ p ∈ packets, p.pkt.toEidType para masks = -1 ∨
      para.num.toNat ≠ 0) (stat : Nat → BitVec 64) :
    ∃ final, packets.foldlM (frcoreVlanCheck para masks) stat =
      some final := by
  induction packets generalizing stat with
  | nil => exact ⟨stat, rfl⟩
  | cons p rest ih =>
      obtain ⟨hp, hrest⟩ := List.forall_mem_cons.mp h
      obtain ⟨next, hnext⟩ := Option.isSome_iff_exists.mp
        ((frcoreVlanCheck_isSome_iff stat).mpr hp)
      rw [List.foldlM_cons, hnext]
      exact ih hrest next

/-- Counted packets with different VLANs have different counters, if the
parameters keep the VLANs apart. -/
theorem counter_ne {q : VlanCheckPkt} (hpara : para.Separates)
    (hp : p.Counted para masks) (hq : q.Counted para masks)
    (hne : p.vlanId ≠ q.vlanId) : p.counter para ≠ q.counter para := by
  obtain ⟨hpEid, hnum, hpVlan⟩ := counted_iff.mp hp
  obtain ⟨hqEid, _, hqVlan⟩ := counted_iff.mp hq
  have hne' : p.vlanId.toNat ≠ q.vlanId.toNat := fun h =>
    hne (BitVec.eq_of_toNat_eq h)
  have hpLe := vlanId_le p
  have hqLe := vlanId_le q
  have hpMod := Nat.mod_lt (p.pkt.toEidType para masks).toNat
    (Nat.pos_of_ne_zero hnum)
  have hqMod := Nat.mod_lt (q.pkt.toEidType para masks).toNat
    (Nat.pos_of_ne_zero hnum)
  intro hcounter
  rw [VlanCheckPkt.counter, VlanCheckPkt.counter,
    portVlanStat_inj (vid_lt para p) (vid_lt para q), toNat_vid hp,
    toNat_vid hq] at hcounter
  rcases hpara.2 with hsmall | hend | hnull | hunknown
  · omega
  · omega
  · exact hpEid (toEidType_null hnull p.pkt)
  · rw [toEidType_unknown hunknown] at hpVlan hqVlan
    omega

end Packets

/-- A packet whose number is the given one, whatever type tells them apart. -/
def eidPkt (type : BitVec 8) (eid : BitVec 32) : IpPkt :=
  .ip4 (if type.toNat = 2 then ⟨0, eid⟩ else ⟨eid, 0⟩)

theorem toEidType_eidPkt {para : FrcVlanCheckPara}
    (hnull : para.type.toNat ≠ 0) (hknown : para.type.toNat < 4)
    (eid : BitVec 32) :
    (eidPkt para.type eid).toEidType para fullMasks = eid := by
  have hall : ∀ data : BitVec 32, data &&& (-1 : BitVec 32) = data :=
    fun data => BitVec.and_allOnes
  have hcases : para.type.toNat = 1 ∨ para.type.toNat = 2 ∨
      para.type.toNat = 3 := by
    omega
  rcases hcases with htype | htype | htype
  · simp only [eidPkt, IpPkt.toEidType, HashEm.ofType, htype]
    exact hall eid
  · simp only [eidPkt, IpPkt.toEidType, HashEm.ofType, htype, if_true]
    exact hall eid
  · simp only [eidPkt, IpPkt.toEidType, HashEm.ofType, htype]
    exact (congrArg₂ (· + ·) (hall eid) (hall 0)).trans (BitVec.add_zero eid)

/-- A packet that carries the VLAN with number `k` of the range. -/
def rangePkt (para : FrcVlanCheckPara) (k : Nat) : VlanCheckPkt :=
  ⟨0, BitVec.ofNat 16 (para.startId.toNat + k),
    eidPkt para.type (BitVec.ofNat 32 k)⟩

section Range

variable {para : FrcVlanCheckPara} (hnull : para.type.toNat ≠ 0)
  (hknown : para.type.toNat < 4) {k : Nat} (hk : k < para.num.toNat)
  (hstart : para.startId.toNat + k < 4096)

include hstart in
theorem toNat_vlanId_rangePkt :
    (rangePkt para k).vlanId.toNat = para.startId.toNat + k := by
  have hmask : (0xfff : BitVec 16).toNat = 2 ^ 12 - 1 := rfl
  rw [VlanCheckPkt.vlanId, BitVec.toNat_and, hmask,
    Nat.and_two_pow_sub_one_eq_mod, rangePkt, BitVec.toNat_ofNat]
  omega

include hnull hknown hk in
theorem toNat_toEidType_rangePkt :
    ((rangePkt para k).pkt.toEidType para fullMasks).toNat = k := by
  have hlt := para.num.isLt
  rw [rangePkt, toEidType_eidPkt hnull hknown, BitVec.toNat_ofNat,
    Nat.mod_eq_of_lt (by omega)]

include hnull hknown hk hstart

theorem counted_rangePkt : (rangePkt para k).Counted para fullMasks := by
  have heid := toNat_toEidType_rangePkt hnull hknown hk
  have hlt := para.num.isLt
  refine counted_iff.mpr ⟨fun herror => ?_, by omega, ?_⟩
  · have herrorNat : (-1 : BitVec 32).toNat = 2 ^ 32 - 1 := rfl
    rw [herror, herrorNat] at heid
    omega
  · rw [toNat_vlanId_rangePkt hstart, heid, Nat.mod_eq_of_lt hk, Nat.add_comm]

theorem counter_rangePkt :
    (rangePkt para k).counter para =
      portVlanStat 0 (xe0StatVlanId0 + k % 256) := by
  rw [VlanCheckPkt.counter, toNat_vid (counted_rangePkt hnull hknown hk hstart),
    toNat_toEidType_rangePkt hnull hknown hk, Nat.mod_eq_of_lt hk]
  rfl

end Range

/-- With packets of every number, the parameters have to keep the VLANs
apart. -/
theorem separates_of_exact {para : FrcVlanCheckPara}
    (h : ∀ packets : List VlanCheckPkt,
      VlanCheckExact para fullMasks packets) : para.Separates := by
  constructor
  · by_contra hzero
    obtain ⟨hnum, hnull⟩ := not_or.mp hzero
    rw [not_not] at hnum
    have heid : (eidPkt para.type 0).toEidType para fullMasks = 0 := by
      by_cases hknown : para.type.toNat < 4
      · exact toEidType_eidPkt hnull hknown 0
      · exact toEidType_unknown (Nat.not_lt.mp hknown) _
    obtain ⟨stat, hrun, _⟩ := h [⟨0, 0, eidPkt para.type 0⟩]
    rw [List.foldlM_cons] at hrun
    obtain ⟨next, hnext, _⟩ := Option.bind_eq_some_iff.mp hrun
    have hsome := (frcoreVlanCheck_isSome_iff _).mp
      (Option.isSome_iff_exists.mpr ⟨next, hnext⟩)
    rw [heid] at hsome
    exact hsome.elim (by decide) fun hne => hne hnum
  · by_contra hwide
    simp only [not_or, Nat.not_le] at hwide
    obtain ⟨hnum, hstart, hnull, hknown⟩ := hwide
    have hfirst := counted_rangePkt hnull hknown (k := 0) (by omega) (by omega)
    have hsecond := counted_rangePkt hnull hknown hnum (by omega)
    obtain ⟨_, _, _, hdistinct, _⟩ := h [rangePkt para 0, rangePkt para 256]
    refine hdistinct (rangePkt para 0) (by simp) (rangePkt para 256) (by simp)
      hfirst hsecond Iff.rfl (fun heq => ?_) ?_
    · have hnat := congrArg BitVec.toNat heq
      rw [toNat_vlanId_rangePkt (by omega), toNat_vlanId_rangePkt (by omega)]
        at hnat
      omega
    · rw [counter_rangePkt hnull hknown (by omega) (by omega),
        counter_rangePkt hnull hknown hnum (by omega)]

/-- The VLAN check counts exactly for all masks and all packets if and only if
the parameters keep the VLANs apart. -/
theorem vlanCheck_exact_iff (para : FrcVlanCheckPara) :
    (∀ (masks : HashMasks) (packets : List VlanCheckPkt),
      VlanCheckExact para masks packets) ↔ para.Separates := by
  refine ⟨fun h => separates_of_exact (h fullMasks), ?_⟩
  intro hpara masks packets
  have hdivides : ∀ p ∈ packets, p.pkt.toEidType para masks = -1 ∨
      para.num.toNat ≠ 0 := fun p _ =>
    hpara.1.elim .inr fun hnull => .inl (toEidType_null hnull p.pkt)
  obtain ⟨stat, hrun⟩ := frcoreVlanCheck_run_isSome hdivides fun _ => 0
  refine ⟨stat, hrun, ?_, ?_, ?_⟩
  · intro p _ _
    have hlt := vid_lt para p
    rw [VlanCheckPkt.counter]
    simp only [portVlanStat]
    split <;> omega
  · intro p _ q _ hp hq _ hne
    exact counter_ne hpara hp hq hne
  · intro port
    rw [vlanStatSum_run hrun port, vlanStatSum, Finset.sum_const_zero, zero_add]

/-- With 512 VLANs from 1024 on, the first and the one 256 behind it are
counted together. -/
theorem wideRange_not_exact :
    ¬ ∀ (para : FrcVlanCheckPara) (masks : HashMasks)
      (packets : List VlanCheckPkt), VlanCheckExact para masks packets := by
  intro h
  have hseparates := separates_of_exact (h ⟨1, 1024, 512⟩ fullMasks)
  exact absurd hseparates.2 (by decide)

end Barley
