/-
The five-tuple as the key of a session: its two words, the order in which it
is hashed, and the direction of a packet in its session.
-/
import Mathlib.Tactic.Common
import Barley.MppTuple
import Barley.TcpReassembly

namespace Barley

/-- `data[0]` of a tuple. -/
def MppTuple.data0 (tuple : MppTuple) : BitVec 64 :=
  tuple.sip ++ tuple.dip

/-- `data_32[2]` of a tuple. -/
def MppTuple.ports (tuple : MppTuple) : BitVec 32 :=
  tuple.sp ++ tuple.dp

/-- `data[1]` of a tuple. -/
def MppTuple.data1 (tuple : MppTuple) : BitVec 64 :=
  tuple.ports ++
    (tuple.proto ++ (tuple.sessionType ++ tuple.ipif : BitVec 8) ++ tuple.rsv :
      BitVec 32)

/-- The tuple with these words. -/
def MppTuple.ofWords (data0 data1 : BitVec 64) : MppTuple where
  sip := data0.extractLsb' 32 32
  dip := data0.extractLsb' 0 32
  sp := data1.extractLsb' 48 16
  dp := data1.extractLsb' 32 16
  proto := data1.extractLsb' 24 8
  sessionType := data1.extractLsb' 21 3
  ipif := data1.extractLsb' 16 5
  rsv := data1.extractLsb' 0 16

/-- The first two words of `struct mpp_ssn_key`.  The four bits of `action`
are also the flags `tcpflowrec`, `host`, `forward` and `mirror`. -/
structure MppSsnKey where
  data0 : BitVec 64
  data1 : BitVec 64
deriving DecidableEq, Repr

def mppSsnHashMaskSniffer : BitVec 64 := 0xffffffffff000000#64

def mppSsnHashMaskData64 : BitVec 64 := 0xffffffffffff0000#64

namespace MppSsnKey

variable (key : MppSsnKey)

def sip : BitVec 32 := key.data0.extractLsb' 32 32

def dip : BitVec 32 := key.data0.extractLsb' 0 32

def sp : BitVec 16 := key.data1.extractLsb' 48 16

def dp : BitVec 16 := key.data1.extractLsb' 32 16

def proto : BitVec 8 := key.data1.extractLsb' 24 8

def tcpflowrec : Bool := key.data1.getLsbD 8

/-- `key.action = MPP_SSN_ACTION_TCPFLOWREC`. -/
def setActionTcpflowrec : MppSsnKey :=
  { key with data1 := (key.data1 &&& ~~~ 0x1e0#64) ||| 0x100#64 }

end MppSsnKey

/-- The key that `ssn_prepare` stores. -/
def MppSsnKey.prepared (data0 data1 mask : BitVec 64) : MppSsnKey :=
  (MppSsnKey.mk data0 (data1 &&& mask)).setActionTcpflowrec

/-- `tuple_positive` of `frcore_tcp_process`. -/
def MppSsnKey.tuplePositive (key : MppSsnKey) : MppTuple :=
  .ofWords key.data0 (key.data1 &&& mppSsnHashMaskData64)

/-- `ssn_sort_tuple`. -/
def ssnSortTuple (srcTuple : MppTuple) : MppTuple :=
  if srcTuple.dip ≤ srcTuple.sip then
    { sip := srcTuple.sip, dip := srcTuple.dip
      sp := srcTuple.sp, dp := srcTuple.dp
      proto := srcTuple.proto, sessionType := 0, ipif := 0, rsv := 0 }
  else
    { sip := srcTuple.dip, dip := srcTuple.sip
      sp := srcTuple.dp, dp := srcTuple.sp
      proto := srcTuple.proto, sessionType := 0, ipif := 0, rsv := 0 }

/-- `ssn_direction_tuple`. -/
def ssnDirectionTuple (srcTuple desTuple : MppTuple) : FlowDirection :=
  if srcTuple.data0 = desTuple.data0 ∧ srcTuple.ports = desTuple.ports then
    .positive
  else .negative

/-- The test of `ssn_lookup_by_tuple` for one node: the words of the key, or
the fields the other way round. -/
def MppSsnKey.hits (key : MppSsnKey) (tuple : MppTuple) (mask : BitVec 64) :
    Bool :=
  (key.data0 = tuple.data0 ∧ key.data1 &&& mask = tuple.data1 &&& mask) ∨
    (key.sip = tuple.dip ∧ key.dip = tuple.sip ∧ key.sp = tuple.dp ∧
      key.dp = tuple.sp ∧ key.proto = tuple.proto)

/-- The five fields that tell connections apart. -/
structure FiveTuple where
  sip : BitVec 32
  dip : BitVec 32
  sp : BitVec 16
  dp : BitVec 16
  proto : BitVec 8
deriving DecidableEq, Repr

def FiveTuple.reverse (five : FiveTuple) : FiveTuple where
  sip := five.dip
  dip := five.sip
  sp := five.dp
  dp := five.sp
  proto := five.proto

/-- The two directions of one connection. -/
def FiveTuple.Same (five other : FiveTuple) : Prop :=
  five = other ∨ five = other.reverse

def MppTuple.five (tuple : MppTuple) : FiveTuple where
  sip := tuple.sip
  dip := tuple.dip
  sp := tuple.sp
  dp := tuple.dp
  proto := tuple.proto

def MppSsnKey.five (key : MppSsnKey) : FiveTuple where
  sip := key.sip
  dip := key.dip
  sp := key.sp
  dp := key.dp
  proto := key.proto

/-- The tuple of the other direction. -/
def MppTuple.reverse (tuple : MppTuple) : MppTuple :=
  { tuple with
    sip := tuple.dip
    dip := tuple.sip
    sp := tuple.dp
    dp := tuple.sp }

section Same

variable {five other third : FiveTuple}

@[simp] theorem FiveTuple.reverse_reverse : five.reverse.reverse = five := rfl

theorem FiveTuple.Same.symm (h : five.Same other) : other.Same five := by
  rcases h with rfl | rfl
  · exact Or.inl rfl
  · exact Or.inr rfl

theorem FiveTuple.Same.trans (h : five.Same other) (h' : other.Same third) :
    five.Same third := by
  rcases h with rfl | rfl
  · exact h'
  · rcases h' with rfl | rfl
    · exact Or.inr rfl
    · exact Or.inl rfl

theorem ssnSortTuple_same (tuple : MppTuple) :
    (ssnSortTuple tuple).five.Same tuple.five := by
  rw [ssnSortTuple]
  split
  · exact Or.inl rfl
  · exact Or.inr rfl

end Same

section Words

variable (tuple : MppTuple) (key : MppSsnKey)

theorem MppTuple.data1_sp : tuple.data1.extractLsb' 48 16 = tuple.sp := by
  rw [MppTuple.data1, BitVec.extractLsb'_append_eq_of_le (by decide),
    MppTuple.ports, BitVec.extractLsb'_append_eq_of_le (by decide),
    Nat.sub_self, BitVec.extractLsb'_eq_self]

theorem MppTuple.data1_dp : tuple.data1.extractLsb' 32 16 = tuple.dp := by
  rw [MppTuple.data1, BitVec.extractLsb'_append_eq_of_le (by decide),
    MppTuple.ports, BitVec.extractLsb'_append_eq_of_add_le (by decide),
    Nat.sub_self, BitVec.extractLsb'_eq_self]

theorem MppTuple.data1_proto : tuple.data1.extractLsb' 24 8 = tuple.proto := by
  rw [MppTuple.data1, BitVec.extractLsb'_append_eq_of_add_le (by decide),
    BitVec.extractLsb'_append_eq_of_le (by decide),
    BitVec.extractLsb'_append_eq_of_le (by decide), BitVec.extractLsb'_eq_self]

theorem append_eq_append_iff {v w : Nat} {a c : BitVec v} {b d : BitVec w} :
    a ++ b = c ++ d ↔ a = c ∧ b = d := by
  constructor
  · intro h
    have hhigh := congrArg (BitVec.extractLsb' w v) h
    have hlow := congrArg (BitVec.extractLsb' 0 w) h
    rw [BitVec.extractLsb'_append_eq_left,
      BitVec.extractLsb'_append_eq_left] at hhigh
    rw [BitVec.extractLsb'_append_eq_right,
      BitVec.extractLsb'_append_eq_right] at hlow
    exact ⟨hhigh, hlow⟩
  · rintro ⟨rfl, rfl⟩
    rfl

theorem sniffer_mask (x : BitVec 64) :
    x &&& mppSsnHashMaskSniffer =
      x.extractLsb' 48 16 ++ x.extractLsb' 32 16 ++ x.extractLsb' 24 8 ++
        0#24 := by
  have hmask : mppSsnHashMaskSniffer = BitVec.allOnes 40 ++ 0#24 := by decide
  have hx : x.extractLsb' 24 40 ++ x.extractLsb' 0 24 = x :=
    BitVec.extractLsb'_append_extractLsb'
  have hports : x.extractLsb' 48 16 ++ x.extractLsb' 32 16 =
      x.extractLsb' 32 32 :=
    BitVec.extractLsb'_append_extractLsb'_eq_extractLsb' (by decide)
  have hkept : x.extractLsb' 32 32 ++ x.extractLsb' 24 8 =
      x.extractLsb' 24 40 :=
    BitVec.extractLsb'_append_extractLsb'_eq_extractLsb' (by decide)
  rw [hports, hkept, hmask]
  nth_rewrite 1 [← hx]
  rw [BitVec.and_append, BitVec.and_allOnes, BitVec.and_zero]

theorem MppTuple.data0_eq_iff (x : BitVec 64) :
    x = tuple.data0 ↔
      x.extractLsb' 32 32 = tuple.sip ∧ x.extractLsb' 0 32 = tuple.dip := by
  have hx : x.extractLsb' 32 32 ++ x.extractLsb' 0 32 = x :=
    BitVec.extractLsb'_append_extractLsb'
  nth_rewrite 1 [← hx]
  exact append_eq_append_iff

/-- The words agree under the mask exactly when ports and protocol do. -/
theorem MppTuple.data1_sniffer_iff (x : BitVec 64) :
    x &&& mppSsnHashMaskSniffer = tuple.data1 &&& mppSsnHashMaskSniffer ↔
      x.extractLsb' 48 16 = tuple.sp ∧ x.extractLsb' 32 16 = tuple.dp ∧
      x.extractLsb' 24 8 = tuple.proto := by
  rw [sniffer_mask, sniffer_mask, append_eq_append_iff, append_eq_append_iff,
    append_eq_append_iff, tuple.data1_sp, tuple.data1_dp, tuple.data1_proto,
    and_iff_left rfl, and_assoc]

/-- A node hits a tuple exactly when it is of the same connection. -/
theorem MppSsnKey.hits_iff :
    key.hits tuple mppSsnHashMaskSniffer ↔ key.five.Same tuple.five := by
  rw [MppSsnKey.hits, decide_eq_true_iff, tuple.data0_eq_iff,
    tuple.data1_sniffer_iff, FiveTuple.Same, MppSsnKey.five, MppTuple.five,
    FiveTuple.reverse, FiveTuple.mk.injEq, FiveTuple.mk.injEq, and_assoc]
  rfl

theorem MppTuple.ofWords_data0 (data0 data1 : BitVec 64) :
    (MppTuple.ofWords data0 data1).data0 = data0 :=
  BitVec.extractLsb'_append_extractLsb'

theorem MppTuple.ofWords_ports (data0 data1 : BitVec 64) :
    (MppTuple.ofWords data0 data1).ports = data1.extractLsb' 32 32 :=
  BitVec.extractLsb'_append_extractLsb'_eq_extractLsb' (by decide)

/-- Ports and protocol of the key of a new session are those of the tuple. -/
theorem MppSsnKey.prepared_sniffer :
    (MppSsnKey.prepared tuple.data0 tuple.data1
      mppSsnHashMaskData64).data1 &&& mppSsnHashMaskSniffer =
      tuple.data1 &&& mppSsnHashMaskSniffer := by
  have hkept : mppSsnHashMaskData64 &&& (~~~ 0x1e0#64 &&&
      mppSsnHashMaskSniffer) = mppSsnHashMaskSniffer := by decide
  have hset : 0x100#64 &&& mppSsnHashMaskSniffer = 0#64 := by decide
  show ((tuple.data1 &&& mppSsnHashMaskData64 &&& ~~~ 0x1e0#64) ||| 0x100#64) &&&
    mppSsnHashMaskSniffer = _
  rw [BitVec.and_or_distrib_right, hset, BitVec.or_zero, BitVec.and_assoc,
    BitVec.and_assoc, hkept]

theorem MppSsnKey.prepared_five :
    (MppSsnKey.prepared tuple.data0 tuple.data1 mppSsnHashMaskData64).five =
      tuple.five := by
  obtain ⟨hsp, hdp, hproto⟩ :=
    (tuple.data1_sniffer_iff _).1 (MppSsnKey.prepared_sniffer tuple)
  obtain ⟨hsip, hdip⟩ := (tuple.data0_eq_iff _).1 rfl
  rw [MppTuple.five, ← hsp, ← hdp, ← hproto, ← hsip, ← hdip]
  rfl

theorem MppSsnKey.prepared_tcpflowrec :
    (MppSsnKey.prepared tuple.data0 tuple.data1
      mppSsnHashMaskData64).tcpflowrec = true := by
  show ((_ &&& ~~~ 0x1e0#64) ||| 0x100#64).getLsbD 8 = true
  rw [BitVec.getLsbD_or]
  exact Bool.or_true _

theorem MppSsnKey.setActionTcpflowrec_idem :
    key.setActionTcpflowrec.setActionTcpflowrec = key.setActionTcpflowrec := by
  have hset : 0x100#64 &&& ~~~ 0x1e0#64 = 0#64 := by decide
  rw [MppSsnKey.setActionTcpflowrec, MppSsnKey.setActionTcpflowrec,
    MppSsnKey.mk.injEq]
  refine ⟨rfl, ?_⟩
  rw [BitVec.and_or_distrib_right, hset, BitVec.or_zero, BitVec.and_assoc,
    BitVec.and_self]

end Words

section Directions

variable (tuple : MppTuple) (key : MppSsnKey)

theorem MppSsnKey.tuplePositive_ports :
    key.tuplePositive.ports = key.sp ++ key.dp := by
  have hmask : mppSsnHashMaskData64.extractLsb' 32 32 = BitVec.allOnes 32 := by
    decide
  have hports : key.sp ++ key.dp = key.data1.extractLsb' 32 32 :=
    BitVec.extractLsb'_append_extractLsb'_eq_extractLsb' (by decide)
  rw [MppSsnKey.tuplePositive, MppTuple.ofWords_ports, BitVec.extractLsb'_and,
    hmask, BitVec.and_allOnes, hports]

theorem ssnDirectionTuple_eq_positive_iff :
    ssnDirectionTuple tuple key.tuplePositive = .positive ↔
      key.sip = tuple.sip ∧ key.dip = tuple.dip ∧ key.sp = tuple.sp ∧
        key.dp = tuple.dp := by
  have haddr : tuple.data0 = key.tuplePositive.data0 ↔
      key.sip = tuple.sip ∧ key.dip = tuple.dip := by
    rw [MppSsnKey.tuplePositive, MppTuple.ofWords_data0, eq_comm,
      tuple.data0_eq_iff]
    rfl
  have hports : tuple.ports = key.tuplePositive.ports ↔
      key.sp = tuple.sp ∧ key.dp = tuple.dp := by
    rw [key.tuplePositive_ports, eq_comm]
    exact append_eq_append_iff
  rw [← and_assoc, ← haddr, ← hports, ssnDirectionTuple]
  split
  · rename_i h
    exact iff_of_true rfl h
  · rename_i h
    exact iff_of_false nofun h

theorem MppTuple.reverse_eq_iff :
    tuple.reverse = tuple ↔ tuple.sip = tuple.dip ∧ tuple.sp = tuple.dp := by
  constructor
  · intro h
    exact ⟨(congrArg MppTuple.dip h), congrArg MppTuple.dp h⟩
  · rintro ⟨haddr, hports⟩
    obtain ⟨sip, dip, sp, dp, proto, sessionType, ipif, rsv⟩ := tuple
    obtain rfl : sip = dip := haddr
    obtain rfl : sp = dp := hports
    rfl

/-- The two directions of a connection are told apart, except where they are
the same. -/
theorem ssnDirectionTuple_reverse_ne
    (hsame : key.five.Same tuple.five) (hne : tuple.reverse ≠ tuple) :
    ssnDirectionTuple tuple key.tuplePositive ≠
      ssnDirectionTuple tuple.reverse key.tuplePositive := by
  intro heq
  have hboth : key.sip = tuple.sip ∧ key.dip = tuple.dip ∧
      key.sp = tuple.sp ∧ key.dp = tuple.dp ∧
      key.sip = tuple.dip ∧ key.sp = tuple.dp := by
    rcases hsame with h | h
    · obtain ⟨hsip, hdip, hsp, hdp, -⟩ := FiveTuple.mk.inj h
      have hpos := (ssnDirectionTuple_eq_positive_iff tuple key).2
        ⟨hsip, hdip, hsp, hdp⟩
      rw [heq] at hpos
      obtain ⟨hsip', -, hsp', -⟩ :=
        (ssnDirectionTuple_eq_positive_iff tuple.reverse key).1 hpos
      exact ⟨hsip, hdip, hsp, hdp, hsip', hsp'⟩
    · obtain ⟨hsip, hdip, hsp, hdp, -⟩ := FiveTuple.mk.inj h
      have hpos := (ssnDirectionTuple_eq_positive_iff tuple.reverse key).2
        ⟨hsip, hdip, hsp, hdp⟩
      rw [← heq] at hpos
      obtain ⟨hsip', hdip', hsp', hdp'⟩ :=
        (ssnDirectionTuple_eq_positive_iff tuple key).1 hpos
      exact ⟨hsip', hdip', hsp', hdp', hsip, hsp⟩
  obtain ⟨hsip, -, hsp, -, hsip', hsp'⟩ := hboth
  exact hne (tuple.reverse_eq_iff.2
    ⟨hsip.symm.trans hsip', hsp.symm.trans hsp'⟩)

/-- Both directions are sorted alike, except between a host's own ports. -/
theorem ssnSortTuple_reverse_iff :
    ssnSortTuple tuple = ssnSortTuple tuple.reverse ↔
      tuple.sip ≠ tuple.dip ∨ tuple.sp = tuple.dp := by
  rw [ssnSortTuple, ssnSortTuple]
  show (if tuple.dip ≤ tuple.sip then _ else _) =
    (if tuple.sip ≤ tuple.dip then _ else _) ↔ _
  by_cases haddr : tuple.sip = tuple.dip
  · rw [haddr, if_pos (BitVec.le_refl _), if_pos (BitVec.le_refl _)]
    constructor
    · intro h
      exact Or.inr (congrArg MppTuple.sp h)
    · rintro (hne | hports)
      · exact absurd rfl hne
      · rw [MppTuple.reverse, hports, haddr]
  · refine iff_of_true ?_ (Or.inl haddr)
    by_cases hle : tuple.dip ≤ tuple.sip
    · have hnot : ¬ tuple.sip ≤ tuple.dip := fun h =>
        haddr (BitVec.le_antisymm h hle)
      rw [if_pos hle, if_neg hnot]
      rfl
    · have hge : tuple.sip ≤ tuple.dip :=
        (BitVec.le_total tuple.sip tuple.dip).resolve_right hle
      rw [if_neg hle, if_pos hge]
      rfl

end Directions

end Barley
