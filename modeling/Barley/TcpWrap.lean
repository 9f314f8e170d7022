/-
Sequence numbers that wrap around.  A shift of all numbers of a direction is
visible to a call only through the plain comparisons, and there only when it
carries one of the two compared numbers past the end of the sequence space and
not the other.
-/
import Barley.TcpShift

namespace Barley

/-- Adding `d` in the sequence space. -/
def shift32 (d n : Nat) : Nat := (n + d) % 2 ^ 32

def TsegQent.shift (d : Nat) (q : TsegQent) : TsegQent :=
  { q with seq := shift32 d q.seq, nxtSeq := shift32 d q.nxtSeq }

def TsegQent.shiftAck (d : Nat) (q : TsegQent) : TsegQent :=
  { q with ackNum := shift32 d q.ackNum }

def TcpFlowData.shift (d : Nat) (flowData : TcpFlowData) : TcpFlowData :=
  { flowData with
    rcvNxt := shift32 d flowData.rcvNxt
    head := flowData.head.map (TsegQent.shift d) }

def TcpFlowData.shiftAck (d : Nat) (flowData : TcpFlowData) : TcpFlowData :=
  { flowData with head := flowData.head.map (TsegQent.shiftAck d) }

/-- All sequence numbers of one direction shifted: those of its own flow and
the acknowledgements that the other flow keeps. -/
def MppSsn.shift (direction : FlowDirection) (d : Nat) (ssn : MppSsn) :
    MppSsn :=
  match direction with
  | .positive =>
      { seq := shift32 d ssn.seq
        ackSeq := ssn.ackSeq
        positiveData := ssn.positiveData.shift d
        negativeData := ssn.negativeData.shiftAck d }
  | .negative =>
      { seq := ssn.seq
        ackSeq := shift32 d ssn.ackSeq
        positiveData := ssn.positiveData.shiftAck d
        negativeData := ssn.negativeData.shift d }

def TcpPacket.shift (direction : FlowDirection) (d : Nat) (pkt : TcpPacket) :
    TcpPacket :=
  if pkt.direction = direction then
    { pkt with sequence := shift32 d pkt.sequence }
  else { pkt with ackNum := shift32 d pkt.ackNum }

/-- How far the numbers of a direction are shifted. -/
def amountOf (direction : FlowDirection) (d : Nat) (of : FlowDirection) : Nat :=
  if of = direction then d else 0

/-- The call does the same, up to the shift, when all numbers of `direction`
are shifted by `d`. -/
def ShiftInvariant (disorderDepth : Nat) (direction : FlowDirection) (d : Nat)
    (ssn : MppSsn) (pkt : TcpPacket) : Prop :=
  (reassTcp disorderDepth ssn pkt).Shifted (amountOf direction d)
    pkt.direction
    (reassTcp disorderDepth (ssn.shift direction d) (pkt.shift direction d))

theorem shiftedBy_shift32 (d n : Nat) : ShiftedBy d n (shift32 d n) :=
  Nat.mod_mod _ _

theorem shiftedBy_zero (n : Nat) : ShiftedBy 0 n n := rfl

theorem TsegQent.shift_shifted (d : Nat) (q : TsegQent) :
    q.Shifted d 0 (q.shift d) :=
  ⟨shiftedBy_shift32 d q.seq, shiftedBy_zero q.ackNum,
    shiftedBy_shift32 d q.nxtSeq, rfl, rfl, rfl⟩

theorem TsegQent.shiftAck_shifted (d : Nat) (q : TsegQent) :
    q.Shifted 0 d (q.shiftAck d) :=
  ⟨shiftedBy_zero q.seq, shiftedBy_shift32 d q.ackNum,
    shiftedBy_zero q.nxtSeq, rfl, rfl, rfl⟩

theorem TcpFlowData.shift_shifted (d : Nat) (flowData : TcpFlowData) :
    flowData.Shifted d 0 (flowData.shift d) :=
  ⟨shiftedBy_shift32 d flowData.rcvNxt,
    List.forall₂_map_right_iff.mpr (List.forall₂_same.mpr fun q _ =>
      q.shift_shifted d), rfl, rfl⟩

theorem TcpFlowData.shiftAck_shifted (d : Nat) (flowData : TcpFlowData) :
    flowData.Shifted 0 d (flowData.shiftAck d) :=
  ⟨shiftedBy_zero flowData.rcvNxt,
    List.forall₂_map_right_iff.mpr (List.forall₂_same.mpr fun q _ =>
      q.shiftAck_shifted d), rfl, rfl⟩

@[simp] theorem MppSsn.shift_flow_self (direction : FlowDirection) (d : Nat)
    (ssn : MppSsn) :
    (ssn.shift direction d).flow direction =
      (ssn.flow direction).shift d := by
  cases direction <;> rfl

theorem MppSsn.shift_flow_of_ne {direction of : FlowDirection}
    (hne : of ≠ direction) (d : Nat) (ssn : MppSsn) :
    (ssn.shift direction d).flow of = (ssn.flow of).shiftAck d := by
  cases direction <;> cases of <;> first | rfl | exact absurd rfl hne

@[simp] theorem MppSsn.shift_ssnSeq_self (direction : FlowDirection) (d : Nat)
    (ssn : MppSsn) :
    (ssn.shift direction d).ssnSeq direction =
      shift32 d (ssn.ssnSeq direction) := by
  cases direction <;> rfl

theorem MppSsn.shift_ssnSeq_of_ne {direction of : FlowDirection}
    (hne : of ≠ direction) (d : Nat) (ssn : MppSsn) :
    (ssn.shift direction d).ssnSeq of = ssn.ssnSeq of := by
  cases direction <;> cases of <;> first | rfl | exact absurd rfl hne

theorem MppSsn.shift_shifted (direction : FlowDirection) (d : Nat)
    (ssn : MppSsn) :
    ssn.Shifted (amountOf direction d) (ssn.shift direction d) := by
  intro of
  by_cases hof : of = direction
  · subst hof
    rw [MppSsn.shift_flow_self, amountOf, if_pos rfl, amountOf,
      if_neg (FlowDirection.other_ne of)]
    exact TcpFlowData.shift_shifted d _
  · have hother : of.other = direction := by
      rcases FlowDirection.eq_or_other of direction with heq | heq
      · exact absurd heq.symm hof
      · exact heq.symm
    rw [MppSsn.shift_flow_of_ne hof, amountOf, if_neg hof, amountOf,
      if_pos hother]
    exact TcpFlowData.shiftAck_shifted d _

theorem TcpPacket.shift_shifted (direction : FlowDirection) (d : Nat)
    (pkt : TcpPacket) :
    pkt.Shifted (amountOf direction d pkt.direction)
      (amountOf direction d pkt.direction.other) (pkt.shift direction d) := by
  by_cases hown : pkt.direction = direction
  · have hother : pkt.direction.other ≠ direction :=
      hown ▸ FlowDirection.other_ne pkt.direction
    rw [TcpPacket.shift, if_pos hown, amountOf, if_pos hown, amountOf,
      if_neg hother]
    exact ⟨shiftedBy_shift32 d pkt.sequence, shiftedBy_zero pkt.ackNum, rfl,
      rfl, rfl, rfl, rfl⟩
  · have hother : pkt.direction.other = direction := by
      rcases FlowDirection.eq_or_other pkt.direction direction with heq | heq
      · exact absurd heq.symm hown
      · exact heq.symm
    rw [TcpPacket.shift, if_neg hown, amountOf, if_neg hown, amountOf,
      if_pos hother]
    exact ⟨shiftedBy_zero pkt.sequence, shiftedBy_shift32 d pkt.ackNum, rfl,
      rfl, rfl, rfl, rfl⟩

/-- The shift carries both numbers past the end of the sequence space, or
neither of them. -/
def SameSide (d a b : Nat) : Prop :=
  a = b ∨ (2 ^ 32 ≤ a + d ↔ 2 ^ 32 ≤ b + d)

/-- How far `a` lies behind `b` in the sequence space. -/
def ringDistance (a b : Nat) : Nat := (a + (2 ^ 32 - b % 2 ^ 32)) % 2 ^ 32

section Sides

variable {d a b : Nat} (hd : d < 2 ^ 32) (ha : a < 2 ^ 32) (hb : b < 2 ^ 32)

include hd ha hb

theorem shift32_lt_iff :
    (shift32 d a < shift32 d b ↔ a < b) ↔ SameSide d a b := by
  unfold shift32 SameSide
  omega

/-- Within 64K the check only depends on the order of the plain numbers. -/
theorem tooFar_shift32_iff :
    (seqWindow < sub64 (shift32 d a) (shift32 d b) ↔ seqWindow < sub64 a b) ↔
      (ringDistance a b ≤ seqWindow → SameSide d a b) := by
  unfold shift32 SameSide ringDistance sub64 seqWindow
  omega

end Sides

theorem ackedCount_shiftAck (d : Nat) (flowData : TcpFlowData) :
    ackedCount (flowData.shiftAck d) = ackedCount flowData := by
  simp only [ackedCount, TcpFlowData.shiftAck, List.takeWhile_map,
    List.length_map]
  rfl

theorem preceding_mem {flowData : TcpFlowData} {pkt : TcpPacket}
    {p : TsegQent} (hp : preceding flowData pkt = some p) :
    p ∈ flowData.head :=
  (List.takeWhile_sublist _).subset (List.mem_of_getLast? hp)

/-- Entries are moved by `d`: `f` moves an entry and `g` its numbers. -/
structure Moves (d : Nat) (f : TsegQent → TsegQent) (g : Nat → Nat) :
    Prop where
  seq : ∀ q, (f q).seq = g q.seq
  nxtSeq : ∀ q, (f q).nxtSeq = g q.nxtSeq
  dataLen : ∀ q, (f q).dataLen = q.dataLen
  shifted : ∀ n, ShiftedBy d n (g n)
  lt : ∀ n, n < 2 ^ 32 → g n < 2 ^ 32

theorem moves_shift (d : Nat) : Moves d (TsegQent.shift d) (shift32 d) :=
  ⟨fun _ => rfl, fun _ => rfl, fun _ => rfl, shiftedBy_shift32 d,
    fun _ _ => Nat.mod_lt _ (Nat.two_pow_pos 32)⟩

/-- Other acknowledgement numbers do not move an entry. -/
theorem moves_shiftAck (d : Nat) : Moves 0 (TsegQent.shiftAck d) id :=
  ⟨fun _ => rfl, fun _ => rfl, fun _ => rfl, shiftedBy_zero, fun _ h => h⟩

section Moved

variable {d : Nat} {f : TsegQent → TsegQent} {g : Nat → Nat}
  {flowData moved : TcpFlowData} {pkt movedPkt : TcpPacket}
  (hmoves : Moves d f g)
  (hseq : ShiftedBy d pkt.sequence movedPkt.sequence)

include hmoves hseq

theorem Moves.seqGt_sequence (q : TsegQent) :
    seqGt (f q).seq movedPkt.sequence = seqGt q.seq pkt.sequence := by
  rw [hmoves.seq]
  exact (hmoves.shifted q.seq).seqGt hseq

theorem preceding_moved (hhead : moved.head = flowData.head.map f) :
    preceding moved movedPkt = (preceding flowData pkt).map f := by
  simp only [preceding, hhead, List.takeWhile_map, List.getLast?_map,
    Function.comp_def, hmoves.seqGt_sequence hseq]

end Moved

theorem isTooFar_shiftAck (d : Nat) (flowData : TcpFlowData)
    {pkt moved : TcpPacket} (hseq : moved.sequence = pkt.sequence) :
    isTooFar (flowData.shiftAck d) moved = isTooFar flowData pkt := by
  have hsame : ShiftedBy 0 pkt.sequence moved.sequence := by
    rw [hseq]
    exact shiftedBy_zero pkt.sequence
  rw [isTooFar, isTooFar, preceding_moved (moves_shiftAck d) hsame rfl,
    Option.any_map, hseq]
  rfl

/-- The 64K check, for the numbers of its own direction. -/
theorem isTooFar_shift_iff {d : Nat} (hd : d < 2 ^ 32)
    {flowData : TcpFlowData} (hfits : ∀ q ∈ flowData.head, q.seq < 2 ^ 32)
    {pkt moved : TcpPacket} (hpkt : pkt.sequence < 2 ^ 32)
    (hseq : moved.sequence = shift32 d pkt.sequence) :
    isTooFar (flowData.shift d) moved = isTooFar flowData pkt ↔
      ∀ p, preceding flowData pkt = some p →
        ringDistance pkt.sequence p.seq ≤ seqWindow →
        SameSide d pkt.sequence p.seq := by
  have hshift : ShiftedBy d pkt.sequence moved.sequence := by
    rw [hseq]
    exact shiftedBy_shift32 d pkt.sequence
  rw [isTooFar, isTooFar, preceding_moved (moves_shift d) hshift rfl,
    Option.any_map, hseq]
  cases hp : preceding flowData pkt with
  | none => simp
  | some p =>
      have hside := tooFar_shift32_iff hd hpkt (hfits p (preceding_mem hp))
      simp only [Option.any_some, decide_eq_decide, Option.some.injEq,
        forall_eq']
      exact hside

/-- The widths of the fields of a session that hold sequence numbers. -/
structure MppSsn.Fits (ssn : MppSsn) : Prop where
  ssnSeq : ∀ direction, ssn.ssnSeq direction < 2 ^ 32
  seq : ∀ direction, ∀ q ∈ (ssn.flow direction).head, q.seq < 2 ^ 32

/-- Draining sends the same entries after the shift: those that it looks at end
behind `rcv_nxt` before and after it, or not. -/
def OrderKept (d rcvNxt : Nat) : List TsegQent → Prop
  | [] => True
  | q :: rest =>
      (shift32 d q.nxtSeq ≤ shift32 d rcvNxt ↔ q.nxtSeq ≤ rcvNxt) ∧
        (q.nxtSeq ≤ rcvNxt → OrderKept d rcvNxt rest)

theorem length_takeWhile_shift_iff (d rcvNxt : Nat) (queue : List TsegQent) :
    ((queue.map (TsegQent.shift d)).takeWhile fun q =>
        q.nxtSeq ≤ shift32 d rcvNxt).length =
        (queue.takeWhile fun q => q.nxtSeq ≤ rcvNxt).length ↔
      OrderKept d rcvNxt queue := by
  induction queue with
  | nil => exact iff_of_true rfl trivial
  | cons q rest ih =>
      rw [List.map_cons, List.takeWhile_cons, List.takeWhile_cons, OrderKept,
        ← ih]
      have hnxt : (q.shift d).nxtSeq = shift32 d q.nxtSeq := rfl
      by_cases hbelow : q.nxtSeq ≤ rcvNxt
      · by_cases hbelow' : shift32 d q.nxtSeq ≤ shift32 d rcvNxt
        · simp [hnxt, hbelow, hbelow']
        · simp [hnxt, hbelow, hbelow']
      · by_cases hbelow' : shift32 d q.nxtSeq ≤ shift32 d rcvNxt
        · simp [hnxt, hbelow, hbelow']
        · simp [hnxt, hbelow, hbelow']

/-- The plain comparisons that the call reaches, and on which it depends how it
ends and what it sends, have their two numbers carried past the end of the
sequence space together or not at all. -/
structure OrdersKept (disorderDepth : Nat) (direction : FlowDirection) (d : Nat)
    (ssn : MppSsn) (pkt : TcpPacket) : Prop where
  first : pkt.direction = direction →
    SameSide d pkt.sequence (ssn.ssnSeq direction)
  acked : pkt.direction ≠ direction →
    ssn.ssnSeq pkt.direction ≤ pkt.sequence →
    (ssn.flow pkt.direction).rev = true →
    toInt (sub64 pkt.ackNum (ssn.flow direction).rcvNxt) = 0 →
    OrderKept d (ssn.flow direction).rcvNxt (ssn.flow direction).head
  near : pkt.direction = direction →
    ssn.ssnSeq direction ≤ pkt.sequence →
    pkt.has (thFin ||| thRst) = false →
    (ssn.flow direction).tsegqeLen < disorderDepth → pkt.allocOk = true →
    ∀ p, preceding (ssn.flow direction) pkt = some p →
      ringDistance pkt.sequence p.seq ≤ seqWindow →
      SameSide d pkt.sequence p.seq

theorem ackedCount_shift_iff (d : Nat) (flowData : TcpFlowData) :
    ackedCount (flowData.shift d) = ackedCount flowData ↔
      OrderKept d flowData.rcvNxt flowData.head :=
  length_takeWhile_shift_iff d flowData.rcvNxt flowData.head

theorem plainAgree_iff (disorderDepth : Nat) (direction : FlowDirection)
    {d : Nat} (hd : d < 2 ^ 32) {ssn : MppSsn} (hssn : ssn.Fits)
    {pkt : TcpPacket} (hpkt : pkt.sequence < 2 ^ 32) :
    PlainAgree disorderDepth ssn pkt (ssn.shift direction d)
        (pkt.shift direction d) ↔
      OrdersKept disorderDepth direction d ssn pkt := by
  by_cases hown : pkt.direction = direction
  · -- the packet's own numbers move, the other queue's stay
    subst hown
    have hother := FlowDirection.other_ne pkt.direction
    have hseq : (pkt.shift pkt.direction d).sequence =
        shift32 d pkt.sequence := by
      rw [TcpPacket.shift, if_pos rfl]
    have hfirst := shift32_lt_iff hd hpkt (hssn.ssnSeq pkt.direction)
    have hnear := isTooFar_shift_iff hd (hssn.seq pkt.direction) hpkt hseq
    constructor
    · rintro ⟨hplain, -, hfar⟩
      rw [hseq, MppSsn.shift_ssnSeq_self, hfirst] at hplain
      rw [MppSsn.shift_flow_self, hnear] at hfar
      exact ⟨fun _ => hplain, fun hne => absurd rfl hne, fun _ => hfar⟩
    · rintro ⟨hside, -, hfar⟩
      refine ⟨?_, fun _ _ _ => ?_, ?_⟩
      · rw [hseq, MppSsn.shift_ssnSeq_self, hfirst]
        exact hside rfl
      · rw [MppSsn.shift_flow_of_ne hother, ackedCount_shiftAck]
      · rw [MppSsn.shift_flow_self, hnear]
        exact hfar rfl
  · -- only the other queue's numbers move
    have hother : direction = pkt.direction.other :=
      (FlowDirection.eq_or_other pkt.direction direction).resolve_left
        fun heq => hown heq.symm
    subst hother
    have hseq : (pkt.shift pkt.direction.other d).sequence =
        pkt.sequence := by
      rw [TcpPacket.shift, if_neg hown]
    constructor
    · rintro ⟨-, hacked, -⟩
      rw [MppSsn.shift_flow_self, ackedCount_shift_iff] at hacked
      exact ⟨fun heq => absurd heq hown, fun _ => hacked,
        fun heq => absurd heq hown⟩
    · rintro ⟨-, hacked, -⟩
      refine ⟨?_, ?_, fun _ _ _ _ => ?_⟩
      · rw [hseq, MppSsn.shift_ssnSeq_of_ne hown]
      · rw [MppSsn.shift_flow_self, ackedCount_shift_iff]
        exact hacked hown
      · rw [MppSsn.shift_flow_of_ne hown]
        exact isTooFar_shiftAck d _ hseq

end Barley
