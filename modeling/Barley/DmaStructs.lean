/-
The header and the records about packets that the card writes to host memory.
The host copies them out, swaps their words and reads the members where it has
declared them.
-/
import Barley.ByteRing
import Barley.CmdStructs
import Barley.SsnBlocks

namespace Barley

/-- A `uint64_t` member. -/
def Member.u64 (value : UInt64) : Member := ⟨8, value.toNat, value.toNat_lt⟩

/-- `frc_dma_hdr_t`. -/
structure FrcDmaHdrT where
  sip : UInt32
  dip : UInt32
  sport : UInt16
  dport : UInt16
  protocol : UInt16
  stopSec : UInt16
  pktNum : UInt16
  totalPaylen : UInt16
  hash : UInt32
  teid : UInt32
  pppoeSessId : UInt32
  pppoeProtocol : UInt16
  pppoePaylen : UInt16
  vlanId : UInt16
  vlanType : UInt16
deriving DecidableEq, Repr, Inhabited

/-- `frc_dma_pkt_info_t`. -/
structure FrcDmaPktInfoT where
  sequence : UInt32
  ackSeq : UInt32
  dataOffset : UInt32
  payloadLen : UInt16
  direction : UInt16
  smac : UInt64
  dmac : UInt64
deriving DecidableEq, Repr, Inhabited

/-- The declarations of `frc_dma_hdr_t`. -/
def FrcDmaHdrT.members (hdr : FrcDmaHdrT) : Endian → List Member
  | .little => [.u32 hdr.sip, .u32 hdr.dip, .u16 hdr.sport, .u16 hdr.dport,
      .u16 hdr.protocol, .u16 hdr.stopSec, .u16 hdr.pktNum,
      .u16 hdr.totalPaylen, .u32 hdr.hash, .u32 hdr.teid, .u32 hdr.pppoeSessId,
      .u16 hdr.pppoeProtocol, .u16 hdr.pppoePaylen, .u16 hdr.vlanId,
      .u16 hdr.vlanType]
  | .big => [.u32 hdr.dip, .u32 hdr.sip, .u16 hdr.stopSec, .u16 hdr.protocol,
      .u16 hdr.dport, .u16 hdr.sport, .u32 hdr.hash, .u16 hdr.totalPaylen,
      .u16 hdr.pktNum, .u32 hdr.pppoeSessId, .u32 hdr.teid, .u16 hdr.vlanType,
      .u16 hdr.vlanId, .u16 hdr.pppoePaylen, .u16 hdr.pppoeProtocol]

/-- The declarations of `frc_dma_pkt_info_t`. -/
def FrcDmaPktInfoT.members (info : FrcDmaPktInfoT) : Endian → List Member
  | .little => [.u32 info.sequence, .u32 info.ackSeq, .u32 info.dataOffset,
      .u16 info.payloadLen, .u16 info.direction, .u64 info.smac,
      .u64 info.dmac]
  | .big => [.u32 info.ackSeq, .u32 info.sequence, .u16 info.direction,
      .u16 info.payloadLen, .u32 info.dataOffset, .u64 info.smac,
      .u64 info.dmac]

/-- The header with the given members, in the order of the host. -/
def FrcDmaHdrT.ofMembers : List Nat → FrcDmaHdrT
  | [sip, dip, sport, dport, protocol, stopSec, pktNum, totalPaylen, hash,
      teid, pppoeSessId, pppoeProtocol, pppoePaylen, vlanId, vlanType] => {
      sip := .ofNat sip, dip := .ofNat dip, sport := .ofNat sport,
      dport := .ofNat dport, protocol := .ofNat protocol,
      stopSec := .ofNat stopSec, pktNum := .ofNat pktNum,
      totalPaylen := .ofNat totalPaylen, hash := .ofNat hash,
      teid := .ofNat teid, pppoeSessId := .ofNat pppoeSessId,
      pppoeProtocol := .ofNat pppoeProtocol,
      pppoePaylen := .ofNat pppoePaylen, vlanId := .ofNat vlanId,
      vlanType := .ofNat vlanType }
  | _ => default

/-- The record with the given members, in the order of the host. -/
def FrcDmaPktInfoT.ofMembers : List Nat → FrcDmaPktInfoT
  | [sequence, ackSeq, dataOffset, payloadLen, direction, smac, dmac] => {
      sequence := .ofNat sequence, ackSeq := .ofNat ackSeq,
      dataOffset := .ofNat dataOffset, payloadLen := .ofNat payloadLen,
      direction := .ofNat direction, smac := .ofNat smac, dmac := .ofNat dmac }
  | _ => default

/-- A structure that the card writes and the host reads: its declarations, the
number of its words, and how the host finds the members. -/
structure DmaStruct (α : Type) where
  members : α → Endian → List Member
  count : Nat
  widths : List Nat
  ofMembers : List Nat → α

def frcDmaHdrT : DmaStruct FrcDmaHdrT where
  members := FrcDmaHdrT.members
  count := sizeofDmaHdr >>> 3
  widths := [4, 4, 2, 2, 2, 2, 2, 2, 4, 4, 4, 2, 2, 2, 2]
  ofMembers := FrcDmaHdrT.ofMembers

def frcDmaPktInfoT : DmaStruct FrcDmaPktInfoT where
  members := FrcDmaPktInfoT.members
  count := sizeofPktInfo >>> 3
  widths := [4, 4, 4, 2, 2, 8, 8]
  ofMembers := FrcDmaPktInfoT.ofMembers

section Access

variable {α : Type} (layout : DmaStruct α)

/-- The structure as the card has it in memory. -/
def DmaStruct.image (value : α) : List UInt8 :=
  Layout.image .big (layout.members value .big)

/-- `memcpy` from the bytes, `swap_buff`, and then the members. -/
def DmaStruct.get (bytes : List UInt8) : α :=
  layout.ofMembers
    (Layout.read .little layout.widths (Bytes.swapWords layout.count bytes))

/-- The two declarations have the same words of 8 bytes, with the members of
each in opposite orders; the host reads the members it has declared. -/
structure DmaStruct.Lawful (value : α) (words : List (List Member)) :
    Prop where
  length_words : words.length = layout.count
  full : ∀ word ∈ words, (word.map Member.width).sum = 8
  host : layout.members value .little = words.flatten
  card : layout.members value .big = (words.map List.reverse).flatten
  packed : ∀ order,
    Layout.packed ((layout.members value order).map Member.width) = true
  widths_eq : (layout.members value .little).map Member.width = layout.widths
  ofMembers_values :
    layout.ofMembers ((layout.members value .little).map Member.value) = value

end Access

section Swapped

/-- Swapping twice gives the bytes back. -/
theorem swapWords_swapWords {count : Nat} {bytes : List UInt8}
    (h : 8 * count ≤ bytes.length) :
    Bytes.swapWords count (Bytes.swapWords count bytes) = bytes := by
  induction count generalizing bytes with
  | zero => rfl
  | succ count ih =>
      have hword : (bytes.take 8).reverse.length = 8 := by
        rw [List.length_reverse, List.length_take]
        omega
      have hrest : 8 * count ≤ (bytes.drop 8).length := by
        rw [List.length_drop]
        omega
      have hswapped : Bytes.swapWords (count + 1) bytes =
          (bytes.take 8).reverse ++ Bytes.swapWords count (bytes.drop 8) := rfl
      rw [hswapped, Bytes.swapWords_append count hword, ih hrest,
        List.reverse_reverse, List.take_append_drop]

variable {α : Type} {layout : DmaStruct α} {value : α}
  {words : List (List Member)}

theorem DmaStruct.Lawful.image_eq (h : layout.Lawful value words)
    (order : Endian) :
    Layout.image order (layout.members value order) =
      (layout.members value order).flatMap (Member.bytes order) :=
  Layout.image_of_packed order (h.packed order)

theorem DmaStruct.Lawful.length_little (h : layout.Lawful value words) :
    (Layout.image .little (layout.members value .little)).length =
      8 * layout.count := by
  rw [h.image_eq, Layout.length_flatMap_bytes, h.host, ← h.length_words]
  exact Bytes.sum_words words h.full

theorem DmaStruct.Lawful.swap_little (h : layout.Lawful value words) :
    Bytes.swapWords layout.count
        (Layout.image .little (layout.members value .little)) =
      layout.image value := by
  rw [DmaStruct.image, h.image_eq, h.image_eq, h.host, h.card,
    ← h.length_words]
  exact Bytes.swapWords_members words h.full

/-- The host gets what the card has written. -/
theorem DmaStruct.Lawful.get_image (h : layout.Lawful value words) :
    layout.get (layout.image value) = value := by
  have hback := swapWords_swapWords (Nat.le_of_eq h.length_little.symm)
  have hread := Layout.read_image .little (layout.members value .little) []
  rw [List.append_nil, h.widths_eq] at hread
  rw [DmaStruct.get, ← h.swap_little, hback, hread, h.ofMembers_values]

theorem DmaStruct.Lawful.length_image (h : layout.Lawful value words) :
    (layout.image value).length = 8 * layout.count := by
  rw [← h.swap_little, length_swapWords, h.length_little]

end Swapped

theorem FrcDmaHdrT.lawful (hdr : FrcDmaHdrT) : frcDmaHdrT.Lawful hdr
    [[.u32 hdr.sip, .u32 hdr.dip],
      [.u16 hdr.sport, .u16 hdr.dport, .u16 hdr.protocol, .u16 hdr.stopSec],
      [.u16 hdr.pktNum, .u16 hdr.totalPaylen, .u32 hdr.hash],
      [.u32 hdr.teid, .u32 hdr.pppoeSessId],
      [.u16 hdr.pppoeProtocol, .u16 hdr.pppoePaylen, .u16 hdr.vlanId,
        .u16 hdr.vlanType]] where
  length_words := by simp [frcDmaHdrT, sizeofDmaHdr]
  full := by simp [Member.u16, Member.u32]
  host := rfl
  card := rfl
  packed order := by
    cases order with
    | little => exact (by decide : Layout.packed
        [4, 4, 2, 2, 2, 2, 2, 2, 4, 4, 4, 2, 2, 2, 2] = true)
    | big => exact (by decide : Layout.packed
        [4, 4, 2, 2, 2, 2, 4, 2, 2, 4, 4, 2, 2, 2, 2] = true)
  widths_eq := rfl
  ofMembers_values := by
    simp [frcDmaHdrT, FrcDmaHdrT.members, FrcDmaHdrT.ofMembers, Member.u16,
      Member.u32]

theorem FrcDmaPktInfoT.lawful (info : FrcDmaPktInfoT) :
    frcDmaPktInfoT.Lawful info
      [[.u32 info.sequence, .u32 info.ackSeq],
        [.u32 info.dataOffset, .u16 info.payloadLen, .u16 info.direction],
        [.u64 info.smac], [.u64 info.dmac]] where
  length_words := by simp [frcDmaPktInfoT, sizeofPktInfo]
  full := by simp [Member.u16, Member.u32, Member.u64]
  host := rfl
  card := rfl
  packed order := by
    cases order with
    | little => exact (by decide : Layout.packed [4, 4, 4, 2, 2, 8, 8] = true)
    | big => exact (by decide : Layout.packed [4, 4, 2, 2, 4, 8, 8] = true)
  widths_eq := rfl
  ofMembers_values := by
    simp [frcDmaPktInfoT, FrcDmaPktInfoT.members, FrcDmaPktInfoT.ofMembers,
      Member.u16, Member.u32, Member.u64]

theorem length_hdrImage (hdr : FrcDmaHdrT) :
    (frcDmaHdrT.image hdr).length = sizeofDmaHdr :=
  hdr.lawful.length_image

theorem length_infoImage (info : FrcDmaPktInfoT) :
    (frcDmaPktInfoT.image info).length = sizeofPktInfo :=
  info.lawful.length_image

end Barley
