/-
The structures that commands and their responses carry between the host, which
is little-endian, and the card, which is big-endian.  Each is declared once for
either side; the host swaps the words of what it sends and unpacks what it gets
field by field.
-/
import Barley.StructLayout
import Barley.FrcPack

namespace Barley

/-- A `uint16_t` member. -/
def Member.u16 (value : UInt16) : Member := ⟨2, value.toNat, value.toNat_lt⟩

/-- A `uint32_t` member. -/
def Member.u32 (value : UInt32) : Member := ⟨4, value.toNat, value.toNat_lt⟩

/-- `frc_rule_t`. -/
structure FrcRule where
  ruleSource : UInt16
  ruleType : UInt16
  action : UInt16
  op : UInt16
  sip : UInt32
  dip : UInt32
  sp : UInt16
  dp : UInt16
  proto : UInt16
  index : UInt16
deriving DecidableEq, Repr

/-- `frc_rule_pkt_stat_t`, `frc_acl_pkt_stat_t` and `frc_fr_session_stat_t`,
which have the same declaration. -/
structure FrcPktStat where
  pkts : UInt32
  bytes : UInt32
deriving DecidableEq, Repr

/-- `frc_rule_stat_t`. -/
structure FrcRuleStat where
  rule : FrcRule
  stat : FrcPktStat
deriving DecidableEq, Repr

/-- `frc_acl_t`. -/
structure FrcAcl where
  aclSource : UInt16
  aclType : UInt16
  action : UInt16
  op : UInt16
  oneTuple : UInt32
  proto : UInt16
  index : UInt16
  hash : UInt32
  reserved : UInt32
deriving DecidableEq, Repr

/-- `frc_acl_stat_t`. -/
structure FrcAclStat where
  acl : FrcAcl
  stat : FrcPktStat
deriving DecidableEq, Repr

/-- `frc_fr_tuple_t`. -/
structure FrcFrTuple where
  sip : UInt32
  dip : UInt32
  sp : UInt16
  dp : UInt16
  proto : UInt16
  reserve : UInt16
deriving DecidableEq, Repr

/-- `frc_fr_session_t`. -/
structure FrcFrSession where
  fiveTuple : FrcFrTuple
  sessionStat : FrcPktStat
deriving DecidableEq, Repr

section Declarations

/-- The declarations of `frc_rule_t`. -/
def FrcRule.members (rule : FrcRule) : Endian → List Member
  | .little => [.u16 rule.ruleSource, .u16 rule.ruleType, .u16 rule.action,
      .u16 rule.op, .u32 rule.sip, .u32 rule.dip, .u16 rule.sp, .u16 rule.dp,
      .u16 rule.proto, .u16 rule.index]
  | .big => [.u16 rule.op, .u16 rule.action, .u16 rule.ruleType,
      .u16 rule.ruleSource, .u32 rule.dip, .u32 rule.sip, .u16 rule.index,
      .u16 rule.proto, .u16 rule.dp, .u16 rule.sp]

def FrcPktStat.members (stat : FrcPktStat) : Endian → List Member
  | .little => [.u32 stat.pkts, .u32 stat.bytes]
  | .big => [.u32 stat.bytes, .u32 stat.pkts]

def FrcRuleStat.members (value : FrcRuleStat) (order : Endian) : List Member :=
  value.rule.members order ++ value.stat.members order

/-- The declarations of `frc_acl_t`. -/
def FrcAcl.members (acl : FrcAcl) : Endian → List Member
  | .little => [.u16 acl.aclSource, .u16 acl.aclType, .u16 acl.action,
      .u16 acl.op, .u32 acl.oneTuple, .u16 acl.proto, .u16 acl.index,
      .u32 acl.hash, .u32 acl.reserved]
  | .big => [.u16 acl.op, .u16 acl.action, .u16 acl.aclType,
      .u16 acl.aclSource, .u16 acl.index, .u16 acl.proto, .u32 acl.oneTuple,
      .u32 acl.reserved, .u32 acl.hash]

def FrcAclStat.members (value : FrcAclStat) (order : Endian) : List Member :=
  value.acl.members order ++ value.stat.members order

/-- The declarations of `frc_fr_tuple_t`. -/
def FrcFrTuple.members (tuple : FrcFrTuple) : Endian → List Member
  | .little => [.u32 tuple.sip, .u32 tuple.dip, .u16 tuple.sp, .u16 tuple.dp,
      .u16 tuple.proto, .u16 tuple.reserve]
  | .big => [.u32 tuple.dip, .u32 tuple.sip, .u16 tuple.reserve,
      .u16 tuple.proto, .u16 tuple.dp, .u16 tuple.sp]

def FrcFrSession.members (value : FrcFrSession) (order : Endian) :
    List Member :=
  value.fiveTuple.members order ++ value.sessionStat.members order

end Declarations

section Unpack

/-- A buffer that unpacking moves along. -/
abbrev Unpack := StateM (List UInt8)

/-- `UNPACK_U16` into a `uint16_t`. -/
def takeU16 : Unpack UInt16 := fun buf =>
  (UInt16.ofNat (unpackU16 buf).1, (unpackU16 buf).2)

/-- `UNPACK_U32` into a `uint32_t`. -/
def takeU32 : Unpack UInt32 := fun buf =>
  (UInt32.ofNat (unpackU32 buf).1, (unpackU32 buf).2)

/-- `frc_tuple_unpack`. -/
def frcTupleUnpack : Endian → Unpack FrcFrTuple
  | .little => do
      let dip ← takeU32
      let sip ← takeU32
      let reserve ← takeU16
      let proto ← takeU16
      let dp ← takeU16
      let sp ← takeU16
      return { sip, dip, sp, dp, proto, reserve }
  | .big => do
      let sip ← takeU32
      let dip ← takeU32
      let sp ← takeU16
      let dp ← takeU16
      let proto ← takeU16
      let reserve ← takeU16
      return { sip, dip, sp, dp, proto, reserve }

/-- The statistics at the end of the other functions. -/
def statUnpack : Endian → Unpack FrcPktStat
  | .little => do
      let bytes ← takeU32
      let pkts ← takeU32
      return { pkts, bytes }
  | .big => do
      let pkts ← takeU32
      let bytes ← takeU32
      return { pkts, bytes }

/-- `frc_fr_session_t_unpack`. -/
def frcFrSessionTUnpack (order : Endian) : Unpack FrcFrSession := do
  let fiveTuple ← frcTupleUnpack order
  let sessionStat ← statUnpack order
  return { fiveTuple, sessionStat }

/-- `frc_rule_unpack`. -/
def frcRuleUnpack : Endian → Unpack FrcRule
  | .little => do
      let op ← takeU16
      let action ← takeU16
      let ruleType ← takeU16
      let ruleSource ← takeU16
      let dip ← takeU32
      let sip ← takeU32
      let index ← takeU16
      let proto ← takeU16
      let dp ← takeU16
      let sp ← takeU16
      return {
        ruleSource, ruleType, action, op, sip, dip, sp, dp, proto, index }
  | .big => do
      let ruleSource ← takeU16
      let ruleType ← takeU16
      let action ← takeU16
      let op ← takeU16
      let sip ← takeU32
      let dip ← takeU32
      let sp ← takeU16
      let dp ← takeU16
      let proto ← takeU16
      let index ← takeU16
      return {
        ruleSource, ruleType, action, op, sip, dip, sp, dp, proto, index }

/-- `frc_rule_stat_unpack`. -/
def frcRuleStatUnpack (order : Endian) : Unpack FrcRuleStat := do
  let rule ← frcRuleUnpack order
  let stat ← statUnpack order
  return { rule, stat }

/-- `frc_acl_unpack`. -/
def frcAclUnpack : Endian → Unpack FrcAcl
  | .little => do
      let op ← takeU16
      let action ← takeU16
      let aclType ← takeU16
      let aclSource ← takeU16
      let index ← takeU16
      let proto ← takeU16
      let oneTuple ← takeU32
      let reserved ← takeU32
      let hash ← takeU32
      return {
        aclSource, aclType, action, op, oneTuple, proto, index, hash,
        reserved }
  | .big => do
      let aclSource ← takeU16
      let aclType ← takeU16
      let action ← takeU16
      let op ← takeU16
      let oneTuple ← takeU32
      let proto ← takeU16
      let index ← takeU16
      let hash ← takeU32
      let reserved ← takeU32
      return {
        aclSource, aclType, action, op, oneTuple, proto, index, hash,
        reserved }

/-- `frc_acl_stat_unpack`. -/
def frcAclStatUnpack (order : Endian) : Unpack FrcAclStat := do
  let acl ← frcAclUnpack order
  let stat ← statUnpack order
  return { acl, stat }

end Unpack

section Transfer

variable (octeonSwap8BData : List UInt8 → Nat → List UInt8)

/-- The data of the instruction that `frcdrv_alloc_cmd_si` builds: the command
and its parameter. -/
def frcdrvAllocCmdSi (cmd : List UInt8) (len : Nat)
    (param : Option (List UInt8)) : List UInt8 :=
  octeonSwap8BData cmd (cmd.length >>> 3) ++
    match param with
    | none => []
    | some param =>
        if len = 0 then [] else octeonSwap8BData (param.take len) (len >>> 3)

/-- The response that `frcdrv_core_respond_dispatch` hands on: only its first
word is swapped. -/
def frcdrvCoreRespondDispatch (respond : List UInt8) : List UInt8 :=
  octeonSwap8BData respond 1

end Transfer

/-- A structure of both sides: its two declarations and its function of
`frc_pack.h`. -/
structure CmdStruct (α : Type) where
  members : α → Endian → List Member
  unpack : Endian → Unpack α

def frcRuleT : CmdStruct FrcRule := ⟨FrcRule.members, frcRuleUnpack⟩

def frcRuleStatT : CmdStruct FrcRuleStat :=
  ⟨FrcRuleStat.members, frcRuleStatUnpack⟩

def frcAclT : CmdStruct FrcAcl := ⟨FrcAcl.members, frcAclUnpack⟩

def frcAclStatT : CmdStruct FrcAclStat := ⟨FrcAclStat.members, frcAclStatUnpack⟩

def frcFrTupleT : CmdStruct FrcFrTuple := ⟨FrcFrTuple.members, frcTupleUnpack⟩

def frcFrSessionT : CmdStruct FrcFrSession :=
  ⟨FrcFrSession.members, frcFrSessionTUnpack⟩

/-- The structure as one side has it in memory. -/
def CmdStruct.image {α : Type} (layout : CmdStruct α) (order : Endian)
    (value : α) : List UInt8 :=
  Layout.image order (layout.members value order)

section Agreement

variable {α : Type}

/-- The host gets from a response what the card has put there. -/
def CmdStruct.ResponseAgrees (layout : CmdStruct α)
    (octeonSwap8BData : List UInt8 → Nat → List UInt8) : Prop :=
  ∀ (value : α) (head rest : List UInt8), head.length = 8 →
    layout.unpack .little
        ((frcdrvCoreRespondDispatch octeonSwap8BData
          (head ++ layout.image .big value ++ rest)).drop 8) =
      (value, rest)

/-- The card finds in a request the values of the host, and every byte of the
structure belongs to a swapped word. -/
def CmdStruct.RequestAgrees (layout : CmdStruct α)
    (octeonSwap8BData : List UInt8 → Nat → List UInt8) : Prop :=
  ∀ (value : α) (cmd : List UInt8), cmd.length = 8 →
    8 ∣ (layout.image .little value).length ∧
      Layout.read .big ((layout.members value .big).map Member.width)
          ((frcdrvAllocCmdSi octeonSwap8BData cmd
            (layout.image .little value).length
            (some (layout.image .little value))).drop 8) =
        (layout.members value .big).map Member.value

end Agreement

section Unpacked

variable (rest : List UInt8)

theorem takeU16_bytes (value : UInt16) :
    takeU16 ((Member.u16 value).bytes .big ++ rest) = (value, rest) := by
  have hlen : ((Member.u16 value).bytes .big).length = 2 :=
    Layout.length_bytes .big (.u16 value)
  have hload : Bytes.load .big ((Member.u16 value).bytes .big) = value.toNat :=
    Bytes.load_store .big (Member.u16 value).fits
  rw [takeU16, unpackU16_append rest hlen, hload, UInt16.ofNat_toNat]

theorem takeU32_bytes (value : UInt32) :
    takeU32 ((Member.u32 value).bytes .big ++ rest) = (value, rest) := by
  have hlen : ((Member.u32 value).bytes .big).length = 4 :=
    Layout.length_bytes .big (.u32 value)
  have hload : Bytes.load .big ((Member.u32 value).bytes .big) = value.toNat :=
    Bytes.load_store .big (Member.u32 value).fits
  rw [takeU32, unpackU32_append rest hlen, hload, UInt32.ofNat_toNat]

/-- The bytes of members, in the order of the card. -/
abbrev cardBytes (members : List Member) : List UInt8 :=
  members.flatMap (Member.bytes .big)

theorem bind_unpack {α β : Type} {first : Unpack α} {next : α → Unpack β}
    {buf : List UInt8} {value : α} {left : List UInt8}
    (hfirst : first buf = (value, left)) :
    (first >>= next) buf = next value left := by
  show (match first buf with | (a, s) => next a s) = next value left
  rw [hfirst]

theorem frcTupleUnpack_bytes (tuple : FrcFrTuple) :
    frcTupleUnpack .little (cardBytes (tuple.members .big) ++ rest) =
      (tuple, rest) := by
  simp only [cardBytes, FrcFrTuple.members, List.flatMap_cons,
    List.flatMap_nil, List.append_assoc, List.nil_append]
  rw [frcTupleUnpack, bind_unpack (takeU32_bytes _ _),
    bind_unpack (takeU32_bytes _ _), bind_unpack (takeU16_bytes _ _),
    bind_unpack (takeU16_bytes _ _), bind_unpack (takeU16_bytes _ _),
    bind_unpack (takeU16_bytes _ _)]
  rfl

theorem statUnpack_bytes (stat : FrcPktStat) :
    statUnpack .little (cardBytes (stat.members .big) ++ rest) =
      (stat, rest) := by
  simp only [cardBytes, FrcPktStat.members, List.flatMap_cons,
    List.flatMap_nil, List.append_assoc, List.nil_append]
  rw [statUnpack, bind_unpack (takeU32_bytes _ _),
    bind_unpack (takeU32_bytes _ _)]
  rfl

theorem frcRuleUnpack_bytes (rule : FrcRule) :
    frcRuleUnpack .little (cardBytes (rule.members .big) ++ rest) =
      (rule, rest) := by
  simp only [cardBytes, FrcRule.members, List.flatMap_cons, List.flatMap_nil,
    List.append_assoc, List.nil_append]
  rw [frcRuleUnpack, bind_unpack (takeU16_bytes _ _),
    bind_unpack (takeU16_bytes _ _), bind_unpack (takeU16_bytes _ _),
    bind_unpack (takeU16_bytes _ _), bind_unpack (takeU32_bytes _ _),
    bind_unpack (takeU32_bytes _ _), bind_unpack (takeU16_bytes _ _),
    bind_unpack (takeU16_bytes _ _), bind_unpack (takeU16_bytes _ _),
    bind_unpack (takeU16_bytes _ _)]
  rfl

theorem frcAclUnpack_bytes (acl : FrcAcl) :
    frcAclUnpack .little (cardBytes (acl.members .big) ++ rest) =
      (acl, rest) := by
  simp only [cardBytes, FrcAcl.members, List.flatMap_cons, List.flatMap_nil,
    List.append_assoc, List.nil_append]
  rw [frcAclUnpack, bind_unpack (takeU16_bytes _ _),
    bind_unpack (takeU16_bytes _ _), bind_unpack (takeU16_bytes _ _),
    bind_unpack (takeU16_bytes _ _), bind_unpack (takeU16_bytes _ _),
    bind_unpack (takeU16_bytes _ _), bind_unpack (takeU32_bytes _ _),
    bind_unpack (takeU32_bytes _ _), bind_unpack (takeU32_bytes _ _)]
  rfl

/-- A structure followed by its statistics. -/
theorem unpack_stat_bytes {α β : Type} {unpack : Unpack α}
    {members : List Member} {value : α}
    (hunpack : ∀ rest, unpack (cardBytes members ++ rest) = (value, rest))
    (stat : FrcPktStat) (pair : α → FrcPktStat → β) :
    (do
      let first ← unpack
      let second ← statUnpack .little
      return pair first second : Unpack β)
        (cardBytes (members ++ stat.members .big) ++ rest) =
      (pair value stat, rest) := by
  rw [cardBytes, List.flatMap_append, List.append_assoc,
    bind_unpack (hunpack _), bind_unpack (statUnpack_bytes _ _)]
  rfl

end Unpacked

section Words

/-- The words of 8 bytes of a structure: on the two sides, the members of each
are declared in opposite orders. -/
structure CmdStruct.Words {α : Type} (layout : CmdStruct α) (value : α) where
  words : List (List Member)
  full : ∀ word ∈ words, (word.map Member.width).sum = 8
  host : layout.members value .little = words.flatten
  card : layout.members value .big = (words.map List.reverse).flatten
  packed : ∀ order,
    Layout.packed ((layout.members value order).map Member.width) = true

variable {α : Type} {layout : CmdStruct α} {value : α}

theorem CmdStruct.Words.image_eq (w : layout.Words value) (order : Endian) :
    layout.image order value =
      (layout.members value order).flatMap (Member.bytes order) :=
  Layout.image_of_packed order (w.packed order)

theorem CmdStruct.Words.length_image (w : layout.Words value) :
    (layout.image .little value).length = 8 * w.words.length := by
  rw [w.image_eq, Layout.length_flatMap_bytes, w.host]
  exact Bytes.sum_words w.words w.full

/-- The swapped words of the host are the memory of the card. -/
theorem CmdStruct.Words.swap_image (w : layout.Words value) :
    Bytes.swapWords w.words.length (layout.image .little value) =
      layout.image .big value := by
  rw [w.image_eq, w.image_eq, w.host, w.card]
  exact Bytes.swapWords_members w.words w.full

def FrcRule.words (rule : FrcRule) : frcRuleT.Words rule where
  words := [[.u16 rule.ruleSource, .u16 rule.ruleType, .u16 rule.action,
      .u16 rule.op], [.u32 rule.sip, .u32 rule.dip],
    [.u16 rule.sp, .u16 rule.dp, .u16 rule.proto, .u16 rule.index]]
  full := by simp [Member.u16, Member.u32]
  host := rfl
  card := rfl
  packed
    | .little =>
        (by decide : Layout.packed [2, 2, 2, 2, 4, 4, 2, 2, 2, 2] = true)
    | .big =>
        (by decide : Layout.packed [2, 2, 2, 2, 4, 4, 2, 2, 2, 2] = true)

def FrcAcl.words (acl : FrcAcl) : frcAclT.Words acl where
  words := [[.u16 acl.aclSource, .u16 acl.aclType, .u16 acl.action,
      .u16 acl.op], [.u32 acl.oneTuple, .u16 acl.proto, .u16 acl.index],
    [.u32 acl.hash, .u32 acl.reserved]]
  full := by simp [Member.u16, Member.u32]
  host := rfl
  card := rfl
  packed
    | .little =>
        (by decide : Layout.packed [2, 2, 2, 2, 4, 2, 2, 4, 4] = true)
    | .big =>
        (by decide : Layout.packed [2, 2, 2, 2, 2, 2, 4, 4, 4] = true)

def FrcFrTuple.words (tuple : FrcFrTuple) : frcFrTupleT.Words tuple where
  words := [[.u32 tuple.sip, .u32 tuple.dip],
    [.u16 tuple.sp, .u16 tuple.dp, .u16 tuple.proto, .u16 tuple.reserve]]
  full := by simp [Member.u16, Member.u32]
  host := rfl
  card := rfl
  packed
    | .little =>
        (by decide : Layout.packed [4, 4, 2, 2, 2, 2] = true)
    | .big =>
        (by decide : Layout.packed [4, 4, 2, 2, 2, 2] = true)

/-- The statistics behind a structure are one more word. -/
def FrcPktStat.word (stat : FrcPktStat) : List Member :=
  [.u32 stat.pkts, .u32 stat.bytes]

def FrcRuleStat.words (value : FrcRuleStat) : frcRuleStatT.Words value where
  words := value.rule.words.words ++ [value.stat.word]
  full := by simp [FrcRule.words, FrcPktStat.word, Member.u16, Member.u32]
  host := rfl
  card := rfl
  packed
    | .little =>
        (by decide : Layout.packed [2, 2, 2, 2, 4, 4, 2, 2, 2, 2, 4, 4] = true)
    | .big =>
        (by decide : Layout.packed [2, 2, 2, 2, 4, 4, 2, 2, 2, 2, 4, 4] = true)

def FrcAclStat.words (value : FrcAclStat) : frcAclStatT.Words value where
  words := value.acl.words.words ++ [value.stat.word]
  full := by simp [FrcAcl.words, FrcPktStat.word, Member.u16, Member.u32]
  host := rfl
  card := rfl
  packed
    | .little =>
        (by decide : Layout.packed [2, 2, 2, 2, 4, 2, 2, 4, 4, 4, 4] = true)
    | .big =>
        (by decide : Layout.packed [2, 2, 2, 2, 2, 2, 4, 4, 4, 4, 4] = true)

def FrcFrSession.words (value : FrcFrSession) : frcFrSessionT.Words value where
  words := value.fiveTuple.words.words ++ [value.sessionStat.word]
  full := by simp [FrcFrTuple.words, FrcPktStat.word, Member.u16, Member.u32]
  host := rfl
  card := rfl
  packed
    | .little =>
        (by decide : Layout.packed [4, 4, 2, 2, 2, 2, 4, 4] = true)
    | .big =>
        (by decide : Layout.packed [4, 4, 2, 2, 2, 2, 4, 4] = true)

end Words

section Agrees

variable {octeonSwap8BData : List UInt8 → Nat → List UInt8}
  {α : Type} {layout : CmdStruct α}

theorem responseAgrees
    (hswap : ∀ data blocks,
      octeonSwap8BData data blocks = Bytes.swapWords blocks data)
    (hwords : ∀ value, layout.Words value)
    (hunpack : ∀ value rest,
      layout.unpack .little (cardBytes (layout.members value .big) ++ rest) =
        (value, rest)) :
    layout.ResponseAgrees octeonSwap8BData := by
  intro value head rest hhead
  let w := hwords value
  have hrev : head.reverse.length = 8 := by rw [List.length_reverse, hhead]
  rw [frcdrvCoreRespondDispatch, hswap, List.append_assoc,
    Bytes.swapWords_append 0 hhead, ← hrev, List.drop_left, Bytes.swapWords,
    w.image_eq]
  exact hunpack value rest

theorem requestAgrees
    (hswap : ∀ data blocks,
      octeonSwap8BData data blocks = Bytes.swapWords blocks data)
    (hwords : ∀ value, layout.Words value) :
    layout.RequestAgrees octeonSwap8BData := by
  intro value cmd hcmd
  let w := hwords value
  have hlen := w.length_image
  refine ⟨⟨_, hlen⟩, ?_⟩
  have hhead : (octeonSwap8BData cmd (cmd.length >>> 3)).length = 8 := by
    have hword := Bytes.swapWords_append 0 hcmd []
    rw [List.append_nil, Bytes.swapWords, List.append_nil] at hword
    rw [hswap, hcmd]
    exact (congrArg List.length hword).trans
      (List.length_reverse.trans hcmd)
  have hcount : (layout.image .little value).length >>> 3 = w.words.length := by
    rw [hlen, Nat.shiftRight_eq_div_pow]
    omega
  have hparam : (if (layout.image .little value).length = 0 then [] else
      octeonSwap8BData ((layout.image .little value).take
        (layout.image .little value).length)
        ((layout.image .little value).length >>> 3)) =
      layout.image .big value := by
    rw [List.take_length, hswap, hcount, w.swap_image]
    split
    · -- a structure without words is empty on both sides
      rename_i hzero
      have hnil := List.eq_nil_of_length_eq_zero hzero
      have hnone : w.words.length = 0 := by omega
      rw [← w.swap_image, hnone, Bytes.swapWords, hnil]
    · rfl
  rw [frcdrvAllocCmdSi]
  simp only [hparam]
  rw [← hhead, List.drop_left]
  have hread := Layout.read_image .big (layout.members value .big) []
  rw [List.append_nil] at hread
  exact hread

/-- Both directions, for a structure that the host can unpack. -/
theorem agrees
    (hswap : ∀ data blocks,
      octeonSwap8BData data blocks = Bytes.swapWords blocks data)
    (hwords : ∀ value, layout.Words value)
    (hunpack : ∀ value rest,
      layout.unpack .little (cardBytes (layout.members value .big) ++ rest) =
        (value, rest)) :
    layout.ResponseAgrees octeonSwap8BData ∧
      layout.RequestAgrees octeonSwap8BData :=
  ⟨responseAgrees hswap hwords hunpack, requestAgrees hswap hwords⟩

/-- Host and card agree on every structure, in both directions. -/
theorem cmdStructs_agree
    (hswap : ∀ data blocks,
      octeonSwap8BData data blocks = Bytes.swapWords blocks data) :
    (frcRuleT.ResponseAgrees octeonSwap8BData ∧
      frcRuleT.RequestAgrees octeonSwap8BData) ∧
    (frcRuleStatT.ResponseAgrees octeonSwap8BData ∧
      frcRuleStatT.RequestAgrees octeonSwap8BData) ∧
    (frcAclT.ResponseAgrees octeonSwap8BData ∧
      frcAclT.RequestAgrees octeonSwap8BData) ∧
    (frcAclStatT.ResponseAgrees octeonSwap8BData ∧
      frcAclStatT.RequestAgrees octeonSwap8BData) ∧
    (frcFrTupleT.ResponseAgrees octeonSwap8BData ∧
      frcFrTupleT.RequestAgrees octeonSwap8BData) ∧
    (frcFrSessionT.ResponseAgrees octeonSwap8BData ∧
      frcFrSessionT.RequestAgrees octeonSwap8BData) := by
  refine ⟨?_, ?_, ?_, ?_, ?_, ?_⟩
  · exact agrees hswap FrcRule.words fun rule rest =>
      frcRuleUnpack_bytes rest rule
  · exact agrees hswap FrcRuleStat.words fun value rest =>
      unpack_stat_bytes rest (fun rest => frcRuleUnpack_bytes rest value.rule)
        value.stat FrcRuleStat.mk
  · exact agrees hswap FrcAcl.words fun acl rest =>
      frcAclUnpack_bytes rest acl
  · exact agrees hswap FrcAclStat.words fun value rest =>
      unpack_stat_bytes rest (fun rest => frcAclUnpack_bytes rest value.acl)
        value.stat FrcAclStat.mk
  · exact agrees hswap FrcFrTuple.words fun tuple rest =>
      frcTupleUnpack_bytes rest tuple
  · exact agrees hswap FrcFrSession.words fun value rest =>
      unpack_stat_bytes rest
        (fun rest => frcTupleUnpack_bytes rest value.fiveTuple)
        value.sessionStat FrcFrSession.mk

theorem cmdStructs_agree_swapWords :
    frcFrSessionT.ResponseAgrees (fun data blocks =>
        Bytes.swapWords blocks data) ∧
      frcFrSessionT.RequestAgrees (fun data blocks =>
        Bytes.swapWords blocks data) := by
  obtain ⟨-, -, -, -, -, hsession⟩ := cmdStructs_agree fun _ _ => rfl
  exact hsession

end Agrees

end Barley
