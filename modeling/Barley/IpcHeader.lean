/-
The header that IPC packets are expected to carry.  The host gives the values
and the masks in three words, the card keeps them in the fields of a packet
header, and each packet is compared field by field.
-/
import Barley.FrcPack
import Barley.FrcTypes

namespace Barley

/-- `ipc_exp_t`. -/
@[ext] structure IpcExp where
  ouid : BitVec 16
  ouim : BitVec 16
  iifd : BitVec 16
  iifm : BitVec 16
  pidd : BitVec 64
  pidm : BitVec 64
deriving DecidableEq

/-- `sizeof(ipc_exp_t)`. -/
def sizeofIpcExp : BitVec 16 := 24

/-- The fields of `ipc_dpkt_hd_t`. -/
structure IpcDpktHd where
  oui : BitVec 16
  pidL : BitVec 32
  chassis : BitVec 4
  resv : BitVec 4
  oriVid : BitVec 16
  pidH : BitVec 16
  slot : BitVec 5
  card : BitVec 1
  ifid : BitVec 2
deriving DecidableEq

/-- `ipc_exp_data` and `ipc_exp_mask`. -/
structure IpcExpected where
  ipcExpData : IpcDpktHd
  ipcExpMask : IpcDpktHd
deriving DecidableEq

/-- The assignments of `frcore_cmd_ipc_exp_set`, which it makes for the values
and again for the masks. -/
def expHead (oui iif : BitVec 16) (pid : BitVec 64) : IpcDpktHd where
  pidH := (pid >>> 32 &&& 0xffff#64).setWidth 16
  pidL := (pid >>> 0 &&& 0xffffffff#64).setWidth 32
  oriVid := ((pid >>> 32 &&& 0xffff0000#64) >>> 16).setWidth 16
  oui := oui
  chassis := ((iif >>> 8 &&& 0xf0#16).setWidth 8 >>> 4).setWidth 4
  resv := ((iif >>> 8 &&& 0xf#16).setWidth 8).setWidth 4
  slot := ((iif &&& 0xf8#16).setWidth 8 >>> 3).setWidth 5
  card := ((iif &&& 0x4#16).setWidth 8 >>> 2).setWidth 1
  ifid := ((iif &&& 0x3#16).setWidth 8).setWidth 2

/-- `frcore_cmd_ipc_exp_set`. -/
def frcoreCmdIpcExpSet (plen : BitVec 16) (expp : IpcExp)
    (expected : IpcExpected) : Fre × IpcExpected :=
  if sizeofIpcExp ≠ plen then (.fail, expected)
  else (.success, {
    ipcExpData := expHead expp.ouid expp.iifd expp.pidd
    ipcExpMask := expHead expp.ouim expp.iifm expp.pidm })

/-- The word of `frcore_cmd_ipc_exp_get` for `pidd` and `pidm`.  Its high half
is a signed number before it is shifted. -/
def IpcDpktHd.pid (head : IpcDpktHd) : BitVec 64 :=
  ((head.oriVid.setWidth 32 <<< 16) ||| head.pidH.setWidth 32).signExtend 64
    <<< 32 ||| head.pidL.setWidth 64

/-- The word of `frcore_cmd_ipc_exp_get` for `iifd` and `iifm`. -/
def IpcDpktHd.iif (head : IpcDpktHd) : BitVec 16 :=
  (head.chassis.setWidth 16 <<< 12) ||| (head.resv.setWidth 16 <<< 8) |||
    (head.slot.setWidth 16 <<< 3) ||| (head.card.setWidth 16 <<< 2) |||
    head.ifid.setWidth 16

/-- `frcore_cmd_ipc_exp_get`. -/
def frcoreCmdIpcExpGet (expected : IpcExpected) : IpcExp where
  pidd := expected.ipcExpData.pid
  ouid := expected.ipcExpData.oui
  iifd := expected.ipcExpData.iif
  pidm := expected.ipcExpMask.pid
  ouim := expected.ipcExpMask.oui
  iifm := expected.ipcExpMask.iif

/-- The header that `frcore_ipc_work_process` unpacks. -/
def unpackDpkt (p : List UInt8) : IpcDpktHd :=
  let oui := unpackU16 p
  let pidL := unpackU32 oui.2
  let vare := unpackU8 pidL.2
  let oriVid := unpackU16 vare.2
  let pidH := unpackU16 oriVid.2
  let iifv := unpackU8 pidH.2
  { oui := BitVec.ofNat 16 oui.1
    pidL := BitVec.ofNat 32 pidL.1
    chassis := ((BitVec.ofNat 8 vare.1 &&& 0xf0#8) >>> 4).setWidth 4
    -- cleared by `memset` and never assigned
    resv := 0
    oriVid := BitVec.ofNat 16 oriVid.1
    pidH := BitVec.ofNat 16 pidH.1
    slot := ((BitVec.ofNat 8 iifv.1 &&& 0xf8#8) >>> 3).setWidth 5
    card := ((BitVec.ofNat 8 iifv.1 &&& 0x4#8) >>> 2).setWidth 1
    ifid := (BitVec.ofNat 8 iifv.1 &&& 0x3#8).setWidth 2 }

/-- The comparisons under `exp_check`: whether the packet is counted in
`stat_ipc_head_valid`, and not in `stat_ipc_head_invalid`. -/
def expCheck (data mask dpkt : IpcDpktHd) : Bool :=
  if data.oui &&& mask.oui ≠ dpkt.oui &&& mask.oui then false
  else if data.chassis &&& mask.chassis ≠ dpkt.chassis &&& mask.chassis then
    false
  else if data.pidH &&& mask.pidH ≠ dpkt.pidH &&& mask.pidH then false
  else if data.pidL &&& mask.pidL ≠ dpkt.pidL &&& mask.pidL then false
  else if data.slot &&& mask.slot ≠ dpkt.slot &&& mask.slot then false
  else if data.card &&& mask.card ≠ dpkt.card &&& mask.card then false
  else if data.ifid &&& mask.ifid ≠ dpkt.ifid &&& mask.ifid then false
  else if data.oriVid &&& mask.oriVid ≠ dpkt.oriVid &&& mask.oriVid then false
  else true

section Slices

/-- A field that is cut out by shifts, a mask and a cast is a slice. -/
theorem field_eq_slice {w : Nat} (x mask : BitVec w) (a b v len : Nat)
    (hmask : ∀ i < len, mask.getLsbD (b + i) = true) (hfit : b + len ≤ v) :
    ((x >>> a &&& mask).setWidth v >>> b).setWidth len =
      x.extractLsb' (a + b) len := by
  apply BitVec.eq_of_getLsbD_eq
  intro i hi
  have hbit : b + i < v := by omega
  simp only [BitVec.getLsbD_setWidth, BitVec.getLsbD_ushiftRight,
    BitVec.getLsbD_and, BitVec.getLsbD_extractLsb', hmask i hi, hi, hbit,
    decide_true, Bool.true_and, Bool.and_true, Nat.add_assoc]

variable (oui iif : BitVec 16) (pid : BitVec 64)

/-- What the card keeps is the words cut into fields. -/
theorem expHead_eq : expHead oui iif pid = {
    oui := oui
    pidL := pid.extractLsb' 0 32
    chassis := iif.extractLsb' 12 4
    resv := iif.extractLsb' 8 4
    oriVid := pid.extractLsb' 48 16
    pidH := pid.extractLsb' 32 16
    slot := iif.extractLsb' 3 5
    card := iif.extractLsb' 2 1
    ifid := iif.extractLsb' 0 2 } := by
  have hpidH := field_eq_slice pid 0xffff#64 32 0 16 16 (by decide) (by decide)
  have hpidL := field_eq_slice pid 0xffffffff#64 0 0 32 32 (by decide)
    (by decide)
  have hvid := field_eq_slice pid 0xffff0000#64 32 16 64 16 (by decide)
    (by decide)
  have hchassis := field_eq_slice iif 0xf0#16 8 4 8 4 (by decide) (by decide)
  have hresv := field_eq_slice iif 0xf#16 8 0 8 4 (by decide) (by decide)
  have hslot := field_eq_slice iif 0xf8#16 0 3 8 5 (by decide) (by decide)
  have hcard := field_eq_slice iif 0x4#16 0 2 8 1 (by decide) (by decide)
  have hifid := field_eq_slice iif 0x3#16 0 0 8 2 (by decide) (by decide)
  simp only [BitVec.ushiftRight_zero, BitVec.setWidth_eq] at *
  rw [expHead, hpidH]
  simp only [BitVec.ushiftRight_zero, hpidL, hvid, hchassis, hresv, hslot,
    hcard, hifid]

end Slices

section Words

variable (head : IpcDpktHd)

/-- The sign bits of the high half are shifted out. -/
theorem signExtend_shiftLeft (high : BitVec 32) :
    high.signExtend 64 <<< 32 = high.setWidth 64 <<< 32 := by
  apply BitVec.eq_of_getLsbD_eq
  intro i hi
  rw [BitVec.getLsbD_shiftLeft, BitVec.getLsbD_shiftLeft]
  by_cases hlow : i < 32
  · rw [decide_eq_true hlow, Bool.not_true, Bool.and_false, Bool.false_and,
      Bool.false_and]
  · have hkept : i - 32 < 32 := by omega
    have hwide : i - 32 < 64 := by omega
    rw [BitVec.getLsbD_signExtend, if_pos hkept, BitVec.getLsbD_setWidth,
      decide_eq_true hwide, Bool.true_and]

theorem IpcDpktHd.pid_eq :
    head.pid = head.oriVid ++ head.pidH ++ head.pidL := by
  have hhigh : (head.oriVid.setWidth 32 <<< 16) ||| head.pidH.setWidth 32 =
      head.oriVid ++ head.pidH := by
    rw [← BitVec.setWidth_append_eq_shiftLeft_setWidth_or, BitVec.setWidth_eq]
  rw [IpcDpktHd.pid, hhigh, signExtend_shiftLeft,
    ← BitVec.setWidth_append_eq_shiftLeft_setWidth_or]
  exact BitVec.setWidth_eq _

theorem IpcDpktHd.iif_eq :
    head.iif =
      head.chassis ++ head.resv ++ head.slot ++ head.card ++ head.ifid := by
  have hall := BitVec.setWidth_eq
    (head.chassis ++ head.resv ++ head.slot ++ head.card ++ head.ifid)
  rw [← hall]
  simp only [BitVec.setWidth_append_eq_shiftLeft_setWidth_or,
    BitVec.shiftLeft_or_distrib, ← BitVec.shiftLeft_add]
  rfl

end Words

section Cuts

variable (oui iif : BitVec 16) (pid : BitVec 64)

/-- The slices of `pid`, put together. -/
theorem pid_slices :
    pid.extractLsb' 48 16 ++ pid.extractLsb' 32 16 ++ pid.extractLsb' 0 32 =
      pid := by
  rw [BitVec.extractLsb'_append_extractLsb'_eq_extractLsb'
    (show 48 = 32 + 16 from rfl)]
  exact BitVec.extractLsb'_append_extractLsb'

theorem iif_slices :
    iif.extractLsb' 12 4 ++ iif.extractLsb' 8 4 ++ iif.extractLsb' 3 5 ++
      iif.extractLsb' 2 1 ++ iif.extractLsb' 0 2 = iif := by
  rw [BitVec.extractLsb'_append_extractLsb'_eq_extractLsb'
      (show 12 = 8 + 4 from rfl),
    BitVec.extractLsb'_append_extractLsb'_eq_extractLsb'
      (show 8 = 3 + 5 from rfl),
    BitVec.extractLsb'_append_extractLsb'_eq_extractLsb'
      (show 3 = 2 + 1 from rfl)]
  exact BitVec.extractLsb'_append_extractLsb'

theorem pid_expHead : (expHead oui iif pid).pid = pid := by
  rw [IpcDpktHd.pid_eq, expHead_eq]
  exact pid_slices pid

theorem iif_expHead : (expHead oui iif pid).iif = iif := by
  rw [IpcDpktHd.iif_eq, expHead_eq]
  exact iif_slices iif

end Cuts

section Masks

variable {v w : Nat}

/-- A comparison under a mask, as the bits that differ. -/
theorem and_eq_and_iff (data value mask : BitVec w) :
    data &&& mask = value &&& mask ↔ (value ^^^ data) &&& mask = 0#w := by
  have hxor : (value ^^^ data) &&& mask =
      (data &&& mask) ^^^ (value &&& mask) := by
    apply BitVec.eq_of_getLsbD_eq
    intro i _
    simp only [BitVec.getLsbD_and, BitVec.getLsbD_xor]
    rw [Bool.and_xor_distrib_right, Bool.xor_comm]
  rw [hxor, BitVec.xor_eq_zero_iff]

theorem append_eq_zero_iff (high : BitVec v) (low : BitVec w) :
    high ++ low = 0#(v + w) ↔ high = 0#v ∧ low = 0#w := by
  constructor
  · intro hzero
    have hhigh := congrArg (BitVec.extractLsb' w v) hzero
    have hlow := congrArg (BitVec.extractLsb' 0 w) hzero
    rw [BitVec.extractLsb'_append_eq_left] at hhigh
    rw [BitVec.extractLsb'_append_eq_right] at hlow
    exact ⟨by simpa using hhigh, by simpa using hlow⟩
  · rintro ⟨rfl, rfl⟩
    exact BitVec.zero_append_zero

/-- Two words agree under a mask when their parts do. -/
theorem masked_append_iff (x y m : BitVec v) (x' y' m' : BitVec w) :
    ((x ++ x') ^^^ (y ++ y')) &&& (m ++ m') = 0#(v + w) ↔
      (x ^^^ y) &&& m = 0#v ∧ (x' ^^^ y') &&& m' = 0#w := by
  rw [BitVec.xor_append, BitVec.and_append, append_eq_zero_iff]

theorem pid_masked_iff (vid pidH : BitVec 16) (pidL : BitVec 32)
    (data mask : BitVec 64) :
    ((vid ++ pidH ++ pidL) ^^^ data) &&& mask = 0#64 ↔
      (vid ^^^ data.extractLsb' 48 16) &&& mask.extractLsb' 48 16 = 0 ∧
      (pidH ^^^ data.extractLsb' 32 16) &&& mask.extractLsb' 32 16 = 0 ∧
      (pidL ^^^ data.extractLsb' 0 32) &&& mask.extractLsb' 0 32 = 0 := by
  have hparts := masked_append_iff (vid ++ pidH)
    (data.extractLsb' 48 16 ++ data.extractLsb' 32 16)
    (mask.extractLsb' 48 16 ++ mask.extractLsb' 32 16)
    pidL (data.extractLsb' 0 32) (mask.extractLsb' 0 32)
  rw [pid_slices, pid_slices] at hparts
  refine hparts.trans ?_
  rw [masked_append_iff, and_assoc]
  rfl

theorem iif_masked_iff (chassis resv : BitVec 4) (slot : BitVec 5)
    (card : BitVec 1) (ifid : BitVec 2) (data mask : BitVec 16) :
    ((chassis ++ resv ++ slot ++ card ++ ifid) ^^^ data) &&& mask = 0#16 ↔
      (chassis ^^^ data.extractLsb' 12 4) &&& mask.extractLsb' 12 4 = 0 ∧
      (resv ^^^ data.extractLsb' 8 4) &&& mask.extractLsb' 8 4 = 0 ∧
      (slot ^^^ data.extractLsb' 3 5) &&& mask.extractLsb' 3 5 = 0 ∧
      (card ^^^ data.extractLsb' 2 1) &&& mask.extractLsb' 2 1 = 0 ∧
      (ifid ^^^ data.extractLsb' 0 2) &&& mask.extractLsb' 0 2 = 0 := by
  have hparts := masked_append_iff (chassis ++ resv ++ slot ++ card)
    (data.extractLsb' 12 4 ++ data.extractLsb' 8 4 ++ data.extractLsb' 3 5 ++
      data.extractLsb' 2 1)
    (mask.extractLsb' 12 4 ++ mask.extractLsb' 8 4 ++ mask.extractLsb' 3 5 ++
      mask.extractLsb' 2 1)
    ifid (data.extractLsb' 0 2) (mask.extractLsb' 0 2)
  rw [iif_slices, iif_slices] at hparts
  refine hparts.trans ?_
  rw [masked_append_iff, masked_append_iff, masked_append_iff]
  simp only [and_assoc]
  rfl

end Masks

section Packet

variable (p : List UInt8)

/-- The byte of a packet at distance `k`. -/
def packetByte (k : Nat) : BitVec 8 := (p.getD k 0).toBitVec

/-- Bytes 0 and 1. -/
def packetOui : BitVec 16 := packetByte p 0 ++ packetByte p 1

/-- Bytes 7 and 8, 9 and 10, 2 to 5. -/
def packetVidPid : BitVec 64 :=
  packetByte p 7 ++ packetByte p 8 ++ (packetByte p 9 ++ packetByte p 10) ++
    (packetByte p 2 ++ packetByte p 3 ++ packetByte p 4 ++ packetByte p 5)

/-- Bytes 6 and 11. -/
def packetIif : BitVec 16 := packetByte p 6 ++ packetByte p 11

theorem packetByte_drop (n k : Nat) :
    packetByte (p.drop n) k = packetByte p (n + k) := by
  rw [packetByte, packetByte, List.getD_eq_getElem?_getD, List.getElem?_drop,
    List.getD_eq_getElem?_getD]

theorem toNat_packetByte (k : Nat) :
    byteAt p k &&& 0xff = (packetByte p k).toNat :=
  and_byte (p.getD k 0)

theorem ofNat_unpackU8 :
    BitVec.ofNat 8 (unpackU8 p).1 = packetByte p 0 := by
  rw [unpackU8, toNat_packetByte, BitVec.ofNat_toNat, BitVec.setWidth_eq]

theorem ofNat_unpackU16 :
    BitVec.ofNat 16 (unpackU16 p).1 = packetByte p 0 ++ packetByte p 1 := by
  rw [unpackU16, toNat_packetByte, toNat_packetByte, ← BitVec.toNat_append,
    BitVec.ofNat_toNat]
  exact BitVec.setWidth_eq _

theorem ofNat_unpackU32 :
    BitVec.ofNat 32 (unpackU32 p).1 =
      packetByte p 0 ++ packetByte p 1 ++ packetByte p 2 ++ packetByte p 3 := by
  have hword : (unpackU32 p).1 = (packetByte p 0 ++ packetByte p 1 ++
      packetByte p 2 ++ packetByte p 3).toNat := by
    simp only [unpackU32, toNat_packetByte, BitVec.toNat_append,
      Nat.shiftLeft_or_distrib, ← Nat.shiftLeft_add]
  rw [hword, BitVec.ofNat_toNat]
  exact BitVec.setWidth_eq _

theorem unpackDpkt_eq : unpackDpkt p = {
    oui := packetOui p
    pidL := packetByte p 2 ++ packetByte p 3 ++ packetByte p 4 ++ packetByte p 5
    chassis := (packetByte p 6).extractLsb' 4 4
    resv := 0
    oriVid := packetByte p 7 ++ packetByte p 8
    pidH := packetByte p 9 ++ packetByte p 10
    slot := (packetByte p 11).extractLsb' 3 5
    card := (packetByte p 11).extractLsb' 2 1
    ifid := (packetByte p 11).extractLsb' 0 2 } := by
  have hslice : ∀ (x mask : BitVec 8) (b len : Nat),
      (∀ i < len, mask.getLsbD (b + i) = true) → b + len ≤ 8 →
      ((x &&& mask) >>> b).setWidth len = x.extractLsb' b len := by
    intro x mask b len hmask hfit
    have hfield := field_eq_slice x mask 0 b 8 len hmask hfit
    rw [BitVec.ushiftRight_zero, BitVec.setWidth_eq, Nat.zero_add] at hfield
    exact hfield
  have hrest : (unpackU16 p).2 = p.drop 2 ∧
      (unpackU32 (p.drop 2)).2 = p.drop 6 ∧
      (unpackU8 (p.drop 6)).2 = p.drop 7 ∧
      (unpackU16 (p.drop 7)).2 = p.drop 9 ∧
      (unpackU16 (p.drop 9)).2 = p.drop 11 := by
    simp [unpackU8, unpackU16, unpackU32, List.drop_drop]
  have hifid := hslice (packetByte p 11) 0x3#8 0 2 (by decide) (by decide)
  rw [BitVec.ushiftRight_zero] at hifid
  simp only [unpackDpkt, hrest.1, hrest.2.1, hrest.2.2.1, hrest.2.2.2.1,
    hrest.2.2.2.2, ofNat_unpackU8, ofNat_unpackU16, ofNat_unpackU32,
    packetByte_drop, Nat.reduceAdd, hifid,
    hslice (packetByte p 6) 0xf0#8 4 4 (by decide) (by decide),
    hslice (packetByte p 11) 0xf8#8 3 5 (by decide) (by decide),
    hslice (packetByte p 11) 0x4#8 2 1 (by decide) (by decide)]
  rfl

end Packet

section Check

theorem expCheck_iff (data mask dpkt : IpcDpktHd) :
    expCheck data mask dpkt = true ↔
      (dpkt.oui ^^^ data.oui) &&& mask.oui = 0 ∧
      (dpkt.chassis ^^^ data.chassis) &&& mask.chassis = 0 ∧
      (dpkt.pidH ^^^ data.pidH) &&& mask.pidH = 0 ∧
      (dpkt.pidL ^^^ data.pidL) &&& mask.pidL = 0 ∧
      (dpkt.slot ^^^ data.slot) &&& mask.slot = 0 ∧
      (dpkt.card ^^^ data.card) &&& mask.card = 0 ∧
      (dpkt.ifid ^^^ data.ifid) &&& mask.ifid = 0 ∧
      (dpkt.oriVid ^^^ data.oriVid) &&& mask.oriVid = 0 := by
  simp [expCheck, and_eq_and_iff]

/-- The bits of `resv` are not compared. -/
theorem iif_checked_iff (high low : BitVec 8) (data mask : BitVec 16) :
    ((high ++ low) ^^^ data) &&& mask &&& 0xf0ff#16 = 0#16 ↔
      (high.extractLsb' 4 4 ^^^ data.extractLsb' 12 4) &&&
        mask.extractLsb' 12 4 = 0 ∧
      (low.extractLsb' 3 5 ^^^ data.extractLsb' 3 5) &&&
        mask.extractLsb' 3 5 = 0 ∧
      (low.extractLsb' 2 1 ^^^ data.extractLsb' 2 1) &&&
        mask.extractLsb' 2 1 = 0 ∧
      (low.extractLsb' 0 2 ^^^ data.extractLsb' 0 2) &&&
        mask.extractLsb' 0 2 = 0 := by
  have hones : ∀ k len, (mask &&& 0xf0ff#16).extractLsb' k len =
      mask.extractLsb' k len &&& (0xf0ff#16).extractLsb' k len :=
    fun k len => BitVec.extractLsb'_and
  have hcut := iif_masked_iff ((high ++ low).extractLsb' 12 4)
    ((high ++ low).extractLsb' 8 4) ((high ++ low).extractLsb' 3 5)
    ((high ++ low).extractLsb' 2 1) ((high ++ low).extractLsb' 0 2)
    data (mask &&& 0xf0ff#16)
  have hresv : (0xf0ff#16).extractLsb' 8 4 = 0#4 := by decide
  have hchassis : (0xf0ff#16).extractLsb' 12 4 = BitVec.allOnes 4 := by decide
  have hslot : (0xf0ff#16).extractLsb' 3 5 = BitVec.allOnes 5 := by decide
  have hcard : (0xf0ff#16).extractLsb' 2 1 = BitVec.allOnes 1 := by decide
  have hifid : (0xf0ff#16).extractLsb' 0 2 = BitVec.allOnes 2 := by decide
  rw [iif_slices (high ++ low)] at hcut
  rw [BitVec.and_assoc, hcut, hones, hones, hones, hones, hones, hresv,
    hchassis, hslot, hcard, hifid]
  simp only [BitVec.and_allOnes, BitVec.and_zero]
  rw [BitVec.extractLsb'_append_eq_of_le (by decide : 8 ≤ 12),
    BitVec.extractLsb'_append_eq_of_add_le (by decide : 3 + 5 ≤ 8),
    BitVec.extractLsb'_append_eq_of_add_le (by decide : 2 + 1 ≤ 8),
    BitVec.extractLsb'_append_eq_of_add_le (by decide : 0 + 2 ≤ 8)]
  exact and_congr_right fun _ => and_iff_right rfl

/-- The host reads back what it has set, and a packet is valid when its words
differ from the expected ones only where the masks allow it. -/
theorem ipcExp_set_get_check (e : IpcExp) (before : IpcExpected) :
    ∃ expected,
      frcoreCmdIpcExpSet sizeofIpcExp e before = (.success, expected) ∧
      frcoreCmdIpcExpGet expected = e ∧
      ∀ p : List UInt8,
        expCheck expected.ipcExpData expected.ipcExpMask (unpackDpkt p) =
            true ↔
          (packetOui p ^^^ e.ouid) &&& e.ouim = 0 ∧
          (packetVidPid p ^^^ e.pidd) &&& e.pidm = 0 ∧
          (packetIif p ^^^ e.iifd) &&& e.iifm &&& 0xf0ff = 0 := by
  refine ⟨_, if_neg (not_not.mpr rfl), ?_, ?_⟩
  · ext1
    · rfl
    · rfl
    · exact iif_expHead _ _ _
    · exact iif_expHead _ _ _
    · exact pid_expHead _ _ _
    · exact pid_expHead _ _ _
  · intro p
    have hpid := pid_masked_iff (packetByte p 7 ++ packetByte p 8)
      (packetByte p 9 ++ packetByte p 10)
      (packetByte p 2 ++ packetByte p 3 ++ packetByte p 4 ++ packetByte p 5)
      e.pidd e.pidm
    have hiif := iif_checked_iff (packetByte p 6) (packetByte p 11) e.iifd
      e.iifm
    rw [expCheck_iff, expHead_eq, expHead_eq, unpackDpkt_eq]
    constructor
    · rintro ⟨houi, hchassis, hpidH, hpidL, hslot, hcard, hifid, hvid⟩
      exact ⟨houi, hpid.mpr ⟨hvid, hpidH, hpidL⟩,
        hiif.mpr ⟨hchassis, hslot, hcard, hifid⟩⟩
    · rintro ⟨houi, hvidPid, hiifBits⟩
      obtain ⟨hvid, hpidH, hpidL⟩ := hpid.mp hvidPid
      obtain ⟨hchassis, hslot, hcard, hifid⟩ := hiif.mp hiifBits
      exact ⟨houi, hchassis, hpidH, hpidL, hslot, hcard, hifid, hvid⟩

end Check

end Barley
