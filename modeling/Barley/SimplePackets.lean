/-
Single packets on their way through a block.  The card puts a header, for a
rule channel the rule id, the payload and a record about the packet behind each
other; the host takes them apart again by the length in the header.
-/
import Barley.CellBounds
import Barley.DmaStructs
import Barley.Scatter

namespace Barley

/-- `FRC_DMA_PKT_DATA_SIZE`, the size of the payload arrays of the host. -/
def frcDmaPktDataSize : Nat := 2048 - (sizeofDmaHdr + sizeofPktInfo)

/-- `frc_simple_pkt_t`. -/
structure FrcSimplePkt where
  header : FrcDmaHdrT
  payload : List UInt8
  info : FrcDmaPktInfoT
deriving DecidableEq

/-- `frc_simple_rule_pkt_t`. -/
structure FrcSimpleRulePkt where
  header : FrcDmaHdrT
  ruleId : UInt16
  payload : List UInt8
  info : FrcDmaPktInfoT
deriving DecidableEq

/-- An array of zeros with bytes copied to its front; there is no result when
they reach behind the array. -/
def fillArray (size : Nat) (bytes : List UInt8) : Option (List UInt8) :=
  if size < bytes.length then none
  else some (bytes ++ List.replicate (size - bytes.length) 0)

/-- `SWAP_2_BYTE`. -/
def swap2Byte (i : UInt16) : UInt16 :=
  ((i &&& 0xff00) >>> 8) ||| ((i &&& 0x00ff) <<< 8)

section Host

variable (mem : Nat → UInt8) (dmaPkt : Nat)

/-- `len` bytes of the field `data` of a block, from `offset` on. -/
def simpleBlockData (offset len : Nat) : List UInt8 :=
  Ring.read mem (dmaPkt + frcDmaOffset + offset) len

def simplePktHeader : FrcDmaHdrT :=
  frcDmaHdrT.get (simpleBlockData mem dmaPkt 0 sizeofDmaHdr)

/-- `pr_simple_pkt_get` of a block. -/
def prSimplePktGet : Option FrcSimplePkt :=
  let header := simplePktHeader mem dmaPkt
  let paylen := header.totalPaylen.toNat
  (fillArray frcDmaPktDataSize
    (simpleBlockData mem dmaPkt sizeofDmaHdr paylen)).map fun payload => {
      header
      payload
      info := frcDmaPktInfoT.get
        (simpleBlockData mem dmaPkt (sizeofDmaHdr + paylen) sizeofPktInfo) }

/-- `pr_simple_rule_pkt_get` of a block. -/
def prSimpleRulePktGet : Option FrcSimpleRulePkt :=
  let header := simplePktHeader mem dmaPkt
  let ruleId := swap2Byte (.ofNat
    (Bytes.load .little (simpleBlockData mem dmaPkt sizeofDmaHdr 2)))
  let paylen := header.totalPaylen.toNat
  (fillArray frcDmaPktDataSize
    (simpleBlockData mem dmaPkt (sizeofDmaHdr + 2) paylen)).map fun payload => {
      header
      ruleId
      payload
      info := frcDmaPktInfoT.get
        (simpleBlockData mem dmaPkt (sizeofDmaHdr + paylen + 2)
          sizeofPktInfo) }

end Host

/-- A packet for the host; the header has the length of its payload. -/
structure SimplePacket where
  header : FrcDmaHdrT
  payload : List UInt8
  info : FrcDmaPktInfoT
  totalPaylen_eq : header.totalPaylen.toNat = payload.length

section Packet

variable (packet : SimplePacket)

/-- The packet as the fifo gets it. -/
def SimplePacket.bytes : PacketBytes where
  hdr := frcDmaHdrT.image packet.header
  info := frcDmaPktInfoT.image packet.info
  payload := packet.payload
  hdr_length := length_hdrImage packet.header
  info_length := length_infoImage packet.info
  payload_lt := by
    rw [← packet.totalPaylen_eq]
    exact packet.header.totalPaylen.toNat_lt

/-- A rule id in the memory of the card. -/
def ruleIdBytes (ruleId : UInt16) : TagidBytes where
  bytes := Bytes.store .big 2 ruleId.toNat
  length := Bytes.length_store ..

/-- The bytes of a cell, with the ones that come in front of the payload. -/
def SimplePacket.frame (tag : List UInt8) : List UInt8 :=
  frcDmaHdrT.image packet.header ++ (tag ++ (packet.payload ++
    frcDmaPktInfoT.image packet.info))

theorem SimplePacket.length_frame (tag : List UInt8) :
    (packet.frame tag).length =
      sizeofDmaHdr + tag.length + packet.payload.length + sizeofPktInfo := by
  simp only [SimplePacket.frame, List.length_append, length_hdrImage,
    length_infoImage]
  omega

/-- What the host gets of a packet. -/
def SimplePacket.received : FrcSimplePkt where
  header := packet.header
  payload := packet.payload ++
    List.replicate (frcDmaPktDataSize - packet.payload.length) 0
  info := packet.info

/-- What the host gets of a packet with a rule id. -/
def SimplePacket.receivedRule (ruleId : UInt16) : FrcSimpleRulePkt where
  header := packet.header
  ruleId := ruleId
  payload := packet.payload ++
    List.replicate (frcDmaPktDataSize - packet.payload.length) 0
  info := packet.info

end Packet

section Swap

theorem swap2Byte_toNat (i : UInt16) :
    (swap2Byte i).toNat = i.toNat / 256 + 256 * (i.toNat % 256) := by
  have hi : i.toNat < 2 ^ 16 := i.toNat_lt
  have hhigh : ((i &&& 0xff00) >>> 8).toNat = i.toNat / 256 := by
    have hbits : (i.toNat &&& 0xff00) >>> 8 = i.toNat / 256 % 256 := by
      rw [Nat.shiftRight_and_distrib, Nat.shiftRight_eq_div_pow]
      exact Nat.and_two_pow_sub_one_eq_mod _ 8
    rw [UInt16.toNat_shiftRight, UInt16.toNat_and]
    refine hbits.trans ?_
    omega
  have hlow : ((i &&& 0x00ff) <<< 8).toNat = 2 ^ 8 * (i.toNat % 256) := by
    have hbits : i.toNat &&& 0xff = i.toNat % 256 :=
      Nat.and_two_pow_sub_one_eq_mod _ 8
    rw [UInt16.toNat_shiftLeft, UInt16.toNat_and]
    show (i.toNat &&& 0xff) <<< 8 % 2 ^ 16 = _
    rw [hbits, Nat.shiftLeft_eq]
    omega
  rw [swap2Byte, UInt16.toNat_or, hhigh, hlow, Nat.or_comm,
    ← Nat.two_pow_add_eq_or_of_lt (by omega)]
  omega

/-- The host gets the rule id of the card. -/
theorem swap2Byte_ruleId (ruleId : UInt16) :
    swap2Byte (.ofNat (Bytes.load .little (ruleIdBytes ruleId).bytes)) =
      ruleId := by
  have hi : ruleId.toNat < 2 ^ 16 := ruleId.toNat_lt
  have hload : Bytes.load .little (ruleIdBytes ruleId).bytes =
      ruleId.toNat / 256 + 256 * (ruleId.toNat % 256) := by
    simp only [ruleIdBytes, Bytes.store, Bytes.toLittle, Bytes.load,
      List.reverse_cons, List.reverse_nil, List.nil_append, List.cons_append,
      Bytes.ofLittle, UInt8.toNat_ofNat']
    omega
  have hlt : ruleId.toNat / 256 + 256 * (ruleId.toNat % 256) < 2 ^ 16 := by
    omega
  apply UInt16.toNat_inj.mp
  rw [hload, swap2Byte_toNat, UInt16.toNat_ofNat', Nat.mod_eq_of_lt hlt,
    Nat.add_mul_mod_self_left, Nat.add_mul_div_left _ _ (by decide)]
  omega

end Swap

section Reading

variable {mem : Nat → UInt8} {dmaPkt : Nat} {packet : SimplePacket}
  {tag : List UInt8}

/-- The block holds the bytes of a packet. -/
def SimplePacket.InBlock (packet : SimplePacket) (tag : List UInt8)
    (mem : Nat → UInt8) (dmaPkt : Nat) : Prop :=
  Ring.read mem (dmaPkt + frcDmaOffset) (packet.frame tag).length =
    packet.frame tag

/-- The parts of a packet are where the host looks for them. -/
theorem SimplePacket.InBlock.parts (h : packet.InBlock tag mem dmaPkt) :
    simplePktHeader mem dmaPkt = packet.header ∧
      simpleBlockData mem dmaPkt sizeofDmaHdr tag.length = tag ∧
      simpleBlockData mem dmaPkt (sizeofDmaHdr + tag.length)
        packet.payload.length = packet.payload ∧
      frcDmaPktInfoT.get (simpleBlockData mem dmaPkt
        (sizeofDmaHdr + tag.length + packet.payload.length) sizeofPktInfo) =
          packet.info := by
  obtain ⟨hhead, hrest⟩ := Scatter.read_split h
  obtain ⟨htag, hrest⟩ := Scatter.read_split hrest
  obtain ⟨hpayload, hinfo⟩ := Scatter.read_split hrest
  rw [length_hdrImage] at hhead htag hpayload hinfo
  rw [length_infoImage] at hinfo
  refine ⟨?_, ?_, ?_, ?_⟩
  · rw [simplePktHeader, simpleBlockData, Nat.add_zero, hhead]
    exact packet.header.lawful.get_image
  · exact htag
  · rw [simpleBlockData, ← Nat.add_assoc]
    exact hpayload
  · rw [simpleBlockData, ← Nat.add_assoc, ← Nat.add_assoc, hinfo]
    exact packet.info.lawful.get_image

theorem fillArray_payload (h : packet.payload.length ≤ frcDmaPktDataSize) :
    fillArray frcDmaPktDataSize packet.payload =
      some packet.received.payload := by
  rw [fillArray, if_neg (Nat.not_lt.mpr h)]
  rfl

/-- The host takes a packet without a rule id apart. -/
theorem SimplePacket.InBlock.get (h : packet.InBlock [] mem dmaPkt)
    (hsize : packet.payload.length ≤ frcDmaPktDataSize) :
    prSimplePktGet mem dmaPkt = some packet.received := by
  obtain ⟨hheader, -, hpayload, hinfo⟩ := h.parts
  rw [List.length_nil, Nat.add_zero] at hpayload hinfo
  simp only [prSimplePktGet, hheader, packet.totalPaylen_eq, hpayload, hinfo,
    fillArray_payload hsize, Option.map_some]
  rfl

/-- The host takes a packet with a rule id apart. -/
theorem SimplePacket.InBlock.getRule {ruleId : UInt16}
    (h : packet.InBlock (ruleIdBytes ruleId).bytes mem dmaPkt)
    (hsize : packet.payload.length ≤ frcDmaPktDataSize) :
    prSimpleRulePktGet mem dmaPkt = some (packet.receivedRule ruleId) := by
  obtain ⟨hheader, htag, hpayload, hinfo⟩ := h.parts
  rw [(ruleIdBytes ruleId).length] at htag hpayload hinfo
  rw [Nat.add_right_comm] at hinfo
  simp only [prSimpleRulePktGet, hheader, packet.totalPaylen_eq, htag,
    hpayload, hinfo, swap2Byte_ruleId, fillArray_payload hsize,
    Option.map_some]
  rfl

end Reading

end Barley
