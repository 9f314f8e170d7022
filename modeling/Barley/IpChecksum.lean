/-
The rewriting of an IP header and the checksum written into it.  The loop of the
checksum goes on by one byte a word, over half the length of the packet.
-/
import Mathlib.Algebra.BigOperators.Group.Finset.Piecewise
import Mathlib.Algebra.BigOperators.Intervals
import Mathlib.Algebra.Order.BigOperators.Group.Finset
import Mathlib.Data.BitVec
import Barley.EndAround

namespace Barley

/-- `*(uint16_t *)addr`, the first byte being the upper one. -/
def halfword (bytes : Nat → BitVec 8) (addr : Nat) : BitVec 16 :=
  bytes addr ++ bytes (addr + 1)

/-- `ip_header->ihl`. -/
def iphdrIhl (bytes : Nat → BitVec 8) : Nat :=
  ((bytes 0).extractLsb' 0 4).toNat

/-- `ip_header->tot_len`. -/
def iphdrTotLen (bytes : Nat → BitVec 8) : BitVec 16 :=
  halfword bytes 2

/-- `ip_header->check = value`. -/
def setCheck (bytes : Nat → BitVec 8) (value : BitVec 16) : Nat → BitVec 8 :=
  Function.update (Function.update bytes 10 (value.extractLsb' 8 8)) 11
    (value.extractLsb' 0 8)

/-- The loop of `check_sum` together with the odd byte after it: `addr` is of
type `uint8_t *`, so that `addr++` goes on by one byte. -/
def checkSumLoop (bytes : Nat → BitVec 8) : Nat → Nat → BitVec 32 → BitVec 32
  | 0, _, sum => sum
  | 1, addr, sum => sum + (halfword bytes addr).setWidth 32
  | count + 2, addr, sum =>
      checkSumLoop bytes count (addr + 1)
        (sum + (halfword bytes addr).setWidth 32)

/-- `check_sum`. -/
def checkSum (bytes : Nat → BitVec 8) (count : BitVec 16) : BitVec 16 :=
  let sum := checkSumLoop bytes count.toNat 0 0#32
  let folded := (sum &&& 0xffff#32) + (sum >>> 16)
  (~~~(folded + (folded >>> 16))).setWidth 16

/-- A field that is set unless its configured value is negative. -/
def setConfigured (bytes : Nat → BitVec 8) (addr : Nat) (value : BitVec 64) :
    Nat → BitVec 8 :=
  if 0 ≤ value.toInt then Function.update bytes addr (value.setWidth 8)
  else bytes

/-- `frcore_mac_statistics_set_ip_pkt` before the checksum is computed. -/
def clearedIpPkt (ipTos ipTtl : BitVec 64) (bytes : Nat → BitVec 8) :
    Nat → BitVec 8 :=
  setCheck (setConfigured (setConfigured bytes 1 ipTos) 8 ipTtl) 0#16

/-- `frcore_mac_statistics_set_ip_pkt`. -/
def frcoreMacStatisticsSetIpPkt (ipTos ipTtl : BitVec 64)
    (bytes : Nat → BitVec 8) : Nat → BitVec 8 :=
  let cleared := clearedIpPkt ipTos ipTtl bytes
  setCheck cleared (checkSum cleared (iphdrTotLen cleared))

/-- The memory from a header on whose length fields can be right. -/
structure IpMemory where
  bytes : Nat → BitVec 8
  five_le_ihl : 5 ≤ iphdrIhl bytes
  ihl_le_totLen : 4 * iphdrIhl bytes ≤ (iphdrTotLen bytes).toNat

/-- The words of the header. -/
def headerWords (ihl : Nat) (bytes : Nat → BitVec 8) : List Nat :=
  (List.range (2 * ihl)).map fun k => (halfword bytes (2 * k)).toNat

/-- The packet after the rewriting: its header sums up to all ones, and only the
rewritten fields have changed. -/
def IpMemory.Rewritten (pkt : IpMemory) (after : Nat → BitVec 8) : Prop :=
  EndAround.sum 0xffff (headerWords (iphdrIhl pkt.bytes) after) = 0xffff ∧
  ∀ k, k ≠ 1 → k ≠ 8 → k ≠ 10 → k ≠ 11 → after k = pkt.bytes k

/-- With the checksum cleared, the first half of the packet weighs as much as
the header: there each byte but the outermost counts once as the upper and once
as the lower byte of a word. -/
def IpMemory.Balanced (pkt : IpMemory) (ipTos ipTtl : BitVec 64) : Prop :=
  let cleared := clearedIpPkt ipTos ipTtl pkt.bytes
  let half := ((iphdrTotLen pkt.bytes).toNat + 1) / 2
  256 * (cleared 0).toNat + 257 * ∑ k ∈ Finset.Ico 1 half, (cleared k).toNat +
      (cleared half).toNat ≡
    (headerWords (iphdrIhl pkt.bytes) cleared).sum [MOD 0xffff]

section Words

theorem halfword_toNat (bytes : Nat → BitVec 8) (addr : Nat) :
    (halfword bytes addr).toNat =
      256 * (bytes addr).toNat + (bytes (addr + 1)).toNat := by
  rw [halfword, BitVec.toNat_append,
    ← Nat.shiftLeft_add_eq_or_of_lt (bytes (addr + 1)).isLt, Nat.shiftLeft_eq,
    Nat.mul_comm]

theorem halfword_le (bytes : Nat → BitVec 8) (addr : Nat) :
    (halfword bytes addr).toNat ≤ 0xffff :=
  Nat.lt_succ_iff.mp (halfword bytes addr).isLt

/-- Words one byte apart share all bytes but the first and the last. -/
theorem sum_overlapping (bytes : Nat → BitVec 8) {count : Nat}
    (hcount : 1 ≤ count) :
    ∑ k ∈ Finset.range count, (halfword bytes k).toNat =
      256 * (bytes 0).toNat + 257 * ∑ k ∈ Finset.Ico 1 count, (bytes k).toNat +
        (bytes count).toNat := by
  induction count, hcount using Nat.le_induction with
  | base =>
      rw [Finset.sum_range_one, Finset.Ico_self, Finset.sum_empty,
        halfword_toNat]
      rfl
  | succ count hcount ih =>
      rw [Finset.sum_range_succ, ih, halfword_toNat,
        Finset.sum_Ico_succ_top hcount]
      ring

end Words

section CheckSum

/-- The loop adds up the words that start at successive bytes. -/
theorem checkSumLoop_toNat (bytes : Nat → BitVec 8) (count addr : Nat)
    (sum : BitVec 32)
    (hsum : sum.toNat + 0xffff * ((count + 1) / 2) < 2 ^ 32) :
    (checkSumLoop bytes count addr sum).toNat =
      sum.toNat +
        ∑ k ∈ Finset.range ((count + 1) / 2),
          (halfword bytes (addr + k)).toNat := by
  have hadd : ∀ (sum : BitVec 32) (addr : Nat), sum.toNat + 0xffff < 2 ^ 32 →
      (sum + (halfword bytes addr).setWidth 32).toNat =
        sum.toNat + (halfword bytes addr).toNat := by
    intro sum addr hsum
    have hword := halfword_le bytes addr
    rw [BitVec.toNat_add, BitVec.toNat_setWidth,
      Nat.mod_eq_of_lt (a := (halfword bytes addr).toNat) (by omega)]
    exact Nat.mod_eq_of_lt (by omega)
  fun_induction checkSumLoop bytes count addr sum with
  | case1 addr sum => rfl
  | case2 addr sum =>
      rw [hadd sum addr (by omega), show (1 + 1) / 2 = 1 from rfl,
        Finset.sum_range_one, Nat.add_zero]
  | case3 count addr sum ih =>
      have hhalf : (count + 2 + 1) / 2 = (count + 1) / 2 + 1 := by omega
      have hword := halfword_le bytes addr
      rw [hhalf] at hsum
      have hnext := hadd sum addr (Nat.lt_of_le_of_lt (Nat.add_le_add_left
        (Nat.le_mul_of_pos_right _ (Nat.succ_pos _)) _) hsum)
      rw [ih (by omega), hnext, hhalf, Finset.sum_range_succ',
        Nat.add_right_comm, Nat.add_assoc]
      simp only [Nat.add_assoc, Nat.add_comm 1, Nat.add_zero]

theorem sum_halfwords_le (bytes : Nat → BitVec 8) {count : Nat}
    (hcount : count ≤ 0x8000) :
    ∑ k ∈ Finset.range count, (halfword bytes k).toNat ≤ 0x8000 * 0xffff := by
  have h := Finset.sum_le_card_nsmul (Finset.range count)
    (fun k => (halfword bytes k).toNat) 0xffff fun k _ => halfword_le bytes k
  rw [Finset.card_range, nsmul_eq_mul, Nat.cast_id] at h
  exact h.trans (Nat.mul_le_mul_right _ hcount)

/-- The last three lines of `check_sum` are two rounds of bringing the carry
round, and a complement. -/
theorem complement_folded (sum : BitVec 32)
    (hsum : sum.toNat < 0x10000 * 0x10000) :
    let folded := (sum &&& 0xffff#32) + (sum >>> 16)
    ((~~~(folded + (folded >>> 16))).setWidth 16).toNat =
      0xffff - EndAround.carry 0xffff (EndAround.carry 0xffff sum.toNat) := by
  intro folded
  have hfolded : folded.toNat = EndAround.carry 0xffff sum.toNat := by
    have hlow : (sum &&& 0xffff#32).toNat = sum.toNat % 0x10000 := by
      rw [BitVec.toNat_and]
      exact Nat.and_two_pow_sub_one_eq_mod sum.toNat 16
    rw [BitVec.toNat_add, hlow, BitVec.toNat_ushiftRight,
      Nat.shiftRight_eq_div_pow, EndAround.carry]
    omega
  have hle : EndAround.carry 0xffff folded.toNat ≤ 0xffff := by
    rw [hfolded]
    exact EndAround.carry_carry_le hsum
  have hsmall : folded.toNat ≤ 0xffff + 0xffff := by
    rw [hfolded, EndAround.carry]
    omega
  rw [← hfolded, BitVec.toNat_setWidth, BitVec.toNat_not, BitVec.toNat_add,
    BitVec.toNat_ushiftRight, Nat.shiftRight_eq_div_pow]
  rw [EndAround.carry] at hle ⊢
  omega

/-- What is written is the complement of the total, its carries brought
round. -/
theorem checkSum_toNat (bytes : Nat → BitVec 8) (count : BitVec 16) :
    ∃ word,
      EndAround.Reduces 0xffff
        (∑ k ∈ Finset.range ((count.toNat + 1) / 2), (halfword bytes k).toNat)
        word ∧
      (checkSum bytes count).toNat = 0xffff - word := by
  have hcount := count.isLt
  have hhalf : (count.toNat + 1) / 2 ≤ 0x8000 := by omega
  have htotal := sum_halfwords_le bytes hhalf
  have hloop := checkSumLoop_toNat bytes count.toNat 0 0#32 (by
    rw [BitVec.toNat_ofNat]
    omega)
  rw [BitVec.toNat_ofNat, Nat.zero_mod, Nat.zero_add] at hloop
  simp only [Nat.zero_add] at hloop
  rw [← hloop] at htotal ⊢
  exact ⟨_, EndAround.Reduces.carry_carry (by omega),
    complement_folded _ (by omega)⟩

end CheckSum

section Fields

variable {bytes : Nat → BitVec 8} {k : Nat}

theorem setCheck_of_ne (value : BitVec 16) (hhigh : k ≠ 10) (hlow : k ≠ 11) :
    setCheck bytes value k = bytes k := by
  rw [setCheck, Function.update_of_ne hlow, Function.update_of_ne hhigh]

theorem setCheck_setCheck (bytes : Nat → BitVec 8) (value next : BitVec 16) :
    setCheck (setCheck bytes value) next = setCheck bytes next := by
  rw [setCheck, setCheck,
    Function.update_comm (show (11 : Nat) ≠ 10 by decide), Function.update_idem,
    Function.update_idem, setCheck]

theorem setConfigured_of_ne (value : BitVec 64) {addr : Nat} (h : k ≠ addr) :
    setConfigured bytes addr value k = bytes k := by
  rw [setConfigured]
  by_cases hvalue : 0 ≤ value.toInt
  · rw [if_pos hvalue, Function.update_of_ne h]
  · rw [if_neg hvalue]

theorem clearedIpPkt_of_ne (ipTos ipTtl : BitVec 64) (htos : k ≠ 1)
    (httl : k ≠ 8) (hhigh : k ≠ 10) (hlow : k ≠ 11) :
    clearedIpPkt ipTos ipTtl bytes k = bytes k := by
  rw [clearedIpPkt, setCheck_of_ne 0#16 hhigh hlow,
    setConfigured_of_ne ipTtl httl, setConfigured_of_ne ipTos htos]

/-- The lengths do not depend on what is rewritten. -/
theorem iphdrTotLen_cleared (ipTos ipTtl : BitVec 64) (bytes : Nat → BitVec 8) :
    iphdrTotLen (clearedIpPkt ipTos ipTtl bytes) = iphdrTotLen bytes := by
  have hkept : ∀ k, k = 2 ∨ k = 3 →
      clearedIpPkt ipTos ipTtl bytes k = bytes k := by
    rintro k (rfl | rfl) <;> exact clearedIpPkt_of_ne ipTos ipTtl
      (by decide) (by decide) (by decide) (by decide)
  rw [iphdrTotLen, iphdrTotLen, halfword, halfword, hkept 2 (Or.inl rfl),
    hkept 3 (Or.inr rfl)]

theorem halfword_setCheck (bytes : Nat → BitVec 8) (value : BitVec 16) (k : Nat) :
    halfword (setCheck bytes value) (2 * k) =
      if k = 5 then value else halfword bytes (2 * k) := by
  by_cases hk : k = 5
  · subst hk
    rw [if_pos rfl, halfword, setCheck, Function.update_self,
      Function.update_of_ne (by decide), Function.update_self]
    exact @BitVec.extractLsb'_append_extractLsb' 8 8 value
  · rw [if_neg hk, halfword, halfword,
      setCheck_of_ne value (by omega) (by omega),
      setCheck_of_ne value (by omega) (by omega)]

end Fields

section Header

theorem headerWords_sum (ihl : Nat) (bytes : Nat → BitVec 8) :
    (headerWords ihl bytes).sum =
      ∑ k ∈ Finset.range (2 * ihl), (halfword bytes (2 * k)).toNat :=
  rfl

theorem headerWords_le (ihl : Nat) (bytes : Nat → BitVec 8) :
    ∀ w ∈ headerWords ihl bytes, w ≤ 0xffff := by
  intro w hw
  obtain ⟨k, -, rfl⟩ := List.mem_map.mp hw
  exact halfword_le bytes (2 * k)

/-- Setting a cleared checksum adds it to the sum of the header. -/
theorem headerWords_setCheck {ihl : Nat} (hihl : 5 ≤ ihl)
    (bytes : Nat → BitVec 8) (value : BitVec 16) :
    (headerWords ihl (setCheck bytes value)).sum =
      value.toNat + (headerWords ihl (setCheck bytes 0#16)).sum := by
  have hmem : 5 ∈ Finset.range (2 * ihl) := Finset.mem_range.mpr (by omega)
  rw [headerWords_sum, headerWords_sum, ← Finset.add_sum_erase _ _ hmem,
    ← Finset.add_sum_erase _
      (fun k => (halfword (setCheck bytes 0#16) (2 * k)).toNat) hmem]
  simp only [halfword_setCheck, if_pos]
  rw [BitVec.toNat_ofNat, Nat.zero_mod, Nat.zero_add]
  refine congrArg _ (Finset.sum_congr rfl fun k hk => ?_)
  rw [if_neg (Finset.ne_of_mem_erase hk), if_neg (Finset.ne_of_mem_erase hk)]

/-- The first byte of a header holds its length. -/
theorem headerWords_sum_ne_zero {ihl : Nat} (hihl : 5 ≤ ihl)
    {bytes : Nat → BitVec 8} (hbytes : 5 ≤ iphdrIhl bytes) :
    (headerWords ihl bytes).sum ≠ 0 := by
  have hfirst : (bytes 0).toNat ≠ 0 := by
    intro h
    rw [iphdrIhl, BitVec.extractLsb'_toNat, h] at hbytes
    exact absurd hbytes (by decide)
  have hle := Finset.single_le_sum
    (f := fun k => (halfword bytes (2 * k)).toNat)
    (fun k _ => Nat.zero_le _) (Finset.mem_range.mpr (show 0 < 2 * ihl by omega))
  rw [headerWords_sum]
  rw [Nat.mul_zero, halfword_toNat] at hle
  omega

end Header

/-- The rewritten header sums up to all ones exactly when the first half of the
packet, taken byte by byte, weighs as much as the header. -/
theorem setIpPkt_rewritten_iff (ipTos ipTtl : BitVec 64) (pkt : IpMemory) :
    pkt.Rewritten (frcoreMacStatisticsSetIpPkt ipTos ipTtl pkt.bytes) ↔
      pkt.Balanced ipTos ipTtl := by
  let cleared := clearedIpPkt ipTos ipTtl pkt.bytes
  let ihl := iphdrIhl pkt.bytes
  let totLen := (iphdrTotLen pkt.bytes).toNat
  have hihl : 5 ≤ ihl := pkt.five_le_ihl
  have htotLen : 4 * ihl ≤ totLen := pkt.ihl_le_totLen
  obtain ⟨word, hword, hcheck⟩ := checkSum_toNat cleared (iphdrTotLen cleared)
  let after := setCheck cleared (checkSum cleared (iphdrTotLen cleared))
  have hkept : ∀ k, k ≠ 1 → k ≠ 8 → k ≠ 10 → k ≠ 11 →
      after k = pkt.bytes k := fun k htos httl hhigh hlow =>
    (setCheck_of_ne _ hhigh hlow).trans
      (clearedIpPkt_of_ne ipTos ipTtl htos httl hhigh hlow)
  have hclear : setCheck cleared 0#16 = cleared := setCheck_setCheck _ 0#16 0#16
  have hsum : (headerWords ihl after).sum =
      0xffff - word + (headerWords ihl cleared).sum := by
    rw [headerWords_setCheck hihl, hcheck, hclear]
  have hne : (headerWords ihl after).sum ≠ 0 := by
    refine headerWords_sum_ne_zero hihl ?_
    rw [iphdrIhl, hkept 0 (by decide) (by decide) (by decide) (by decide)]
    exact hihl
  have hones := (EndAround.Reduces.sum (headerWords_le ihl after)).eq_top_iff
    (by decide) hne
  rw [hsum, hword.complement_iff, iphdrTotLen_cleared,
    sum_overlapping cleared (by omega)] at hones
  exact (and_iff_left hkept).trans hones

/-- A header without options, all fields but its lengths being zero. -/
def plainIpMemory : IpMemory where
  bytes := fun k => if k = 0 then 0x45 else if k = 3 then 20 else 0
  five_le_ihl := by decide
  ihl_le_totLen := by decide

/-- Already a packet that is only a header gets a wrong checksum. -/
theorem plainIpMemory_not_rewritten :
    ¬ plainIpMemory.Rewritten
      (frcoreMacStatisticsSetIpPkt (-1) (-1) plainIpMemory.bytes) := by
  rintro ⟨hsum, -⟩
  exact absurd hsum (by decide)

end Barley
