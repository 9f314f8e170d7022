/-
`rcv_nxt` under a shift, and what a call makes of a shift altogether.  The
loops that move `rcv_nxt` on walk along 64-bit numbers; the same walk in the
sequence space goes on where a number has passed the end, and theirs stops.
-/
import Barley.TcpFollow
import Barley.TcpWrap

namespace Barley

/-- The same place of the sequence space. -/
def sameSeq (a b : Nat) : Bool := a % 2 ^ 32 = b % 2 ^ 32

/-- Whenever a span moves the walk on in the sequence space, the walk stands
below the end of it, where spans start. -/
def MeetsPlainly (stop : Bool) (spans : List (Nat × Nat)) (pos : Nat) : Prop :=
  Walk.Meets sameSeq seqGt stop (· < 2 ^ 32) spans pos

/-- A window of half the sequence space. -/
def InWindow (lo n : Nat) : Prop := ringDistance n lo < 2 ^ 31

section Walks

variable {lo d : Nat} {stop : Bool} {spans : List (Nat × Nat)} {pos : Nat}

theorem sameSeq_iff (lo a b : Nat) :
    sameSeq a b = true ↔ ringDistance a lo = ringDistance b lo := by
  rw [sameSeq, decide_eq_true_eq]
  unfold ringDistance
  omega

/-- Within a window, later means farther from its start. -/
theorem ringDistance_lt_of_seqGt (a b : Nat) (ha : InWindow lo a)
    (hb : InWindow lo b) (h : seqGt a b = true) :
    ringDistance b lo < ringDistance a lo := by
  rw [seqGt, decide_eq_true_eq] at h
  unfold InWindow ringDistance at *
  unfold toInt sub64 at h
  split at h <;> omega

theorem InWindow.of_same {a b : Nat}
    (h : ringDistance a lo = ringDistance b lo) (ha : InWindow lo a) :
    InWindow lo b := by
  rw [InWindow, ← h]
  exact ha

theorem InWindow.shift {n : Nat} (h : InWindow lo n) :
    InWindow (shift32 d lo) (shift32 d n) := by
  unfold InWindow ringDistance shift32 at *
  omega

theorem shiftedBy_shift32_iff (lo n m : Nat) :
    ShiftedBy d n (shift32 d m) ↔ ringDistance n lo = ringDistance m lo := by
  unfold ShiftedBy shift32 ringDistance
  omega

theorem seqGt_shift32 (a b : Nat) :
    seqGt (shift32 d a) (shift32 d b) = seqGt a b :=
  (shiftedBy_shift32 d a).seqGt (shiftedBy_shift32 d b)

/-- After a shift the walk is the one in the sequence space. -/
theorem plainWalk_shift (stop : Bool) (spans : List (Nat × Nat)) (pos : Nat) :
    plainWalk stop (spans.map (Prod.map (shift32 d) (shift32 d)))
        (shift32 d pos) =
      shift32 d (Walk.walk sameSeq seqGt stop spans pos) := by
  refine Walk.walk_map stop (shift32 d) (fun a b => ?_) seqGt_shift32 spans pos
  rw [sameSeq, decide_eq_decide]
  unfold shift32
  omega

/-- What the starts and the ends of spans have to be. -/
def SpansIn (lo : Nat) (spans : List (Nat × Nat)) : Prop :=
  ∀ span ∈ spans, span.1 < 2 ^ 32 ∧ InWindow lo span.1 ∧ InWindow lo span.2

theorem SpansIn.starts (h : SpansIn lo spans) :
    ∀ span ∈ spans, ∀ pos, span.1 = pos ↔
      ringDistance span.1 lo = ringDistance pos lo ∧ pos < 2 ^ 32 := by
  intro span hspan pos
  have hlt := (h span hspan).1
  unfold ringDistance
  omega

theorem SpansIn.shift (h : SpansIn lo spans) :
    SpansIn (shift32 d lo) (spans.map (Prod.map (shift32 d) (shift32 d))) := by
  intro span hspan
  obtain ⟨span, hmem, rfl⟩ := List.mem_map.mp hspan
  exact ⟨Nat.mod_lt _ (Nat.two_pow_pos 32), (h span hmem).2.1.shift,
    (h span hmem).2.2.shift⟩

variable (h : SpansIn lo spans)

include h

/-- A walk from below the end of the sequence space sees the shift exactly if
it does not meet all spans plainly. -/
theorem plainWalk_shifted_iff :
    ShiftedBy d (plainWalk stop spans pos) (plainWalk stop
        (spans.map (Prod.map (shift32 d) (shift32 d))) (shift32 d pos)) ↔
      MeetsPlainly stop spans pos := by
  rw [plainWalk_shift, shiftedBy_shift32_iff lo]
  exact Walk.rank_walk_iff_meets (fun n => ringDistance n lo) (InWindow lo)
    ringDistance_lt_of_seqGt h.starts (fun span hspan => (h span hspan).2)
    (sameSeq_iff lo) fun a b => InWindow.of_same

/-- A walk that has passed the end of the sequence space stays. -/
theorem plainWalk_of_passed (hpos : 2 ^ 32 ≤ pos) :
    plainWalk stop spans pos = pos :=
  Walk.walk_of_not_on (· < 2 ^ 32)
    (fun span hspan _ heq => heq ▸ (h span hspan).1)
    (Nat.not_lt.mpr hpos)

theorem plainWalk_stays_iff :
    ringDistance (plainWalk true spans pos) lo = ringDistance pos lo ↔
      ∀ span ∈ spans.takeWhile fun span => span.1 = pos,
        seqGt span.2 pos = false :=
  Walk.rank_walk_eq_iff (fun n => ringDistance n lo) (InWindow lo)
    ringDistance_lt_of_seqGt (fun span hspan => (h span hspan).2.2)
    fun span hspan heq => heq ▸ (h span hspan).2.1

theorem ringDistance_le_plainWalk (stop : Bool) (hpos : InWindow lo pos) :
    ringDistance pos lo ≤ ringDistance (plainWalk stop spans pos) lo :=
  Walk.rank_le_walk (fun a b : Nat => decide (a = b)) stop (fun n => ringDistance n lo)
    (InWindow lo) ringDistance_lt_of_seqGt
    (fun span hspan => (h span hspan).2.2) hpos

end Walks

/-- The walk from `rcv_nxt` along the packet, from `sequence` to `nxtSeq`, and
along the spans behind it comes as far after the shift, when the packet goes
from `sequence'` to `nxtSeq'`.  If the packet continues the stream and moves it
on, it meets `rcv_nxt` in plain numbers both times or not at all; and then the
spans are met plainly from its end, or, where the shift carries the end past
that of the sequence space, none of them moves the walk on. -/
def FollowKept (d sequence sequence' nxtSeq nxtSeq' rcvNxt : Nat)
    (spans : List (Nat × Nat)) : Prop :=
  sequence % 2 ^ 32 = rcvNxt % 2 ^ 32 →
    if seqGt nxtSeq rcvNxt then
      (sequence = rcvNxt ↔ sequence' = shift32 d rcvNxt) ∧
        (sequence = rcvNxt →
          if nxtSeq' < 2 ^ 32 then MeetsPlainly true spans nxtSeq
          else ∀ span ∈ spans.takeWhile fun span => span.1 = nxtSeq,
            seqGt span.2 nxtSeq = false)
    else MeetsPlainly true spans rcvNxt

section Follow

variable {lo d sequence sequence' nxtSeq nxtSeq' rcvNxt : Nat}
  {spans : List (Nat × Nat)}

theorem follow_shifted_iff (h : SpansIn lo spans)
    (hsequence : ShiftedBy d sequence sequence')
    (hnxtSeq : ShiftedBy d nxtSeq nxtSeq')
    (hrcvNxt : InWindow lo rcvNxt) (hend : InWindow lo nxtSeq)
    (hempty : seqGt nxtSeq sequence = false →
      sequence < 2 ^ 32 ∧ sequence' < 2 ^ 32) :
    ShiftedBy d (plainWalk true ((sequence, nxtSeq) :: spans) rcvNxt)
        (plainWalk true ((sequence', nxtSeq') ::
          spans.map (Prod.map (shift32 d) (shift32 d))) (shift32 d rcvNxt)) ↔
      FollowKept d sequence sequence' nxtSeq nxtSeq' rcvNxt spans := by
  rw [plainWalk_cons, plainWalk_cons, if_pos rfl, if_pos rfl, FollowKept,
    hnxtSeq.seqGt (shiftedBy_shift32 d rcvNxt)]
  by_cases hmeet : sequence % 2 ^ 32 = rcvNxt % 2 ^ 32
  · rw [forall_prop_of_true hmeet]
    by_cases hlater : seqGt nxtSeq rcvNxt = true
    · simp only [hlater, if_true]
      have hmoved := ringDistance_lt_of_seqGt _ _ hend hrcvNxt hlater
      by_cases hplain : sequence = rcvNxt
      · by_cases hplain' : sequence' = shift32 d rcvNxt
        · rw [if_pos hplain, if_pos hplain', and_iff_right (iff_of_true hplain
            hplain'), forall_prop_of_true hplain]
          by_cases hbelow : nxtSeq' < 2 ^ 32
          · have hnxt : nxtSeq' = shift32 d nxtSeq := by
              unfold ShiftedBy at hnxtSeq
              unfold shift32
              omega
            rw [if_pos hbelow, hnxt]
            exact plainWalk_shifted_iff h
          · rw [if_neg hbelow, ← plainWalk_stays_iff h,
              plainWalk_of_passed h.shift (Nat.not_lt.mp hbelow)]
            unfold ShiftedBy at *
            unfold ringDistance
            omega
        · -- only the plain walk moves
          have hfar := ringDistance_le_plainWalk h true hend
          rw [if_pos hplain, if_neg hplain', shiftedBy_shift32_iff lo]
          exact iff_of_false (by omega) fun hkept =>
            hplain' (hkept.1.mp hplain)
      · by_cases hplain' : sequence' = shift32 d rcvNxt
        · -- only the shifted walk moves
          have hend' : InWindow (shift32 d lo) nxtSeq' := by
            refine InWindow.of_same ?_ hend.shift
            unfold ShiftedBy at hnxtSeq
            unfold ringDistance shift32
            omega
          have hmoved' := ringDistance_lt_of_seqGt _ _ hend' hrcvNxt.shift
            ((hnxtSeq.seqGt (shiftedBy_shift32 d rcvNxt)).trans hlater)
          have hfar := ringDistance_le_plainWalk h.shift true hend'
          rw [if_neg hplain, if_pos hplain']
          refine iff_of_false (fun hsame => ?_) fun hkept =>
            hplain (hkept.1.mpr hplain')
          generalize plainWalk true _ _ = reached at hsame hfar
          have hback : ringDistance reached (shift32 d lo) =
              ringDistance (shift32 d rcvNxt) (shift32 d lo) := by
            unfold ShiftedBy at hsame
            unfold ringDistance shift32
            omega
          omega
        · rw [if_neg hplain, if_neg hplain', and_iff_right (iff_of_false hplain
            hplain')]
          exact iff_of_true (shiftedBy_shift32 d rcvNxt) fun heq =>
            absurd heq hplain
    · simp only [hlater, Bool.false_eq_true, if_false]
      have hzero : seqGt nxtSeq sequence = false := by
        rw [Bool.not_eq_true] at hlater
        rw [← hlater, seqGt, seqGt]
        unfold toInt sub64
        rw [decide_eq_decide]
        constructor <;> · intro hpos; split at hpos <;> split <;> omega
      obtain ⟨hbelow, hbelow'⟩ := hempty hzero
      have hplain' : sequence' = shift32 d rcvNxt := by
        unfold ShiftedBy at hsequence
        unfold shift32
        omega
      rw [if_pos hplain']
      by_cases hplain : sequence = rcvNxt
      · rw [if_pos hplain]
        exact plainWalk_shifted_iff h
      · rw [if_neg hplain, ← plainWalk_shifted_iff (d := d) h,
          plainWalk_of_passed h (by omega)]
  · have hne : ¬ sequence = rcvNxt := fun heq => hmeet (heq ▸ rfl)
    have hne' : ¬ sequence' = shift32 d rcvNxt := by
      intro heq
      unfold ShiftedBy at hsequence
      unfold shift32 at heq
      omega
    rw [if_neg hne, if_neg hne']
    exact iff_of_true (shiftedBy_shift32 d rcvNxt) fun heq => absurd heq hmeet

end Follow

section Moved

variable {d : Nat} {f : TsegQent → TsegQent} {g : Nat → Nat}
  {flowData moved : TcpFlowData} {pkt movedPkt : TcpPacket}
  (hmoves : Moves d f g)

include hmoves

theorem Moves.span (q : TsegQent) : (f q).span = Prod.map g g q.span := by
  rw [TsegQent.span, hmoves.seq, hmoves.nxtSeq]
  rfl

theorem Moves.toInt_stop {stop stop' : Nat} (hstop : ShiftedBy d stop stop')
    (n : Nat) : toInt (sub64 stop' (g n)) = toInt (sub64 stop n) :=
  hstop.toInt_sub64 (hmoves.shifted n)

theorem spansBehind_map {stop stop' : Nat} (hstop : ShiftedBy d stop stop')
    (back : List TsegQent) :
    spansBehind stop' (back.map f) =
      (spansBehind stop back).map (Prod.map g g) := by
  have hcovered : ∀ q, (f q).coveredTo stop' = q.coveredTo stop := by
    intro q
    rw [TsegQent.coveredTo, TsegQent.coveredTo, hmoves.seq,
      hmoves.toInt_stop hstop, hmoves.dataLen]
  have hdrop : (back.map f).dropWhile (TsegQent.coveredTo stop') =
      (back.dropWhile (TsegQent.coveredTo stop)).map f := by
    rw [List.dropWhile_map]
    congr 2
    exact funext hcovered
  rw [spansBehind, spansBehind, hdrop]
  cases back.dropWhile (TsegQent.coveredTo stop) with
  | nil => rfl
  | cons q rest =>
      have hmod : stop' % 2 ^ 32 = g (stop % 2 ^ 32) := by
        have hlt := hmoves.lt _ (Nat.mod_lt stop (Nat.two_pow_pos 32))
        have hg := hmoves.shifted (stop % 2 ^ 32)
        unfold ShiftedBy at hstop hg
        omega
      simp only [List.map_cons, hmoves.toInt_stop hstop, hmod, hmoves.seq,
        hmoves.nxtSeq, List.map_map, Function.comp_def, hmoves.span,
        Prod.map_apply, apply_ite g]

variable (hhead : moved.head = flowData.head.map f)
  (hseq : ShiftedBy d pkt.sequence movedPkt.sequence)

include hhead hseq

theorem succeeding_moved :
    succeeding moved movedPkt = (succeeding flowData pkt).map f := by
  simp only [succeeding, hhead, List.dropWhile_map, Function.comp_def,
    hmoves.seqGt_sequence hseq]

theorem overlap_moved : overlap moved movedPkt = overlap flowData pkt := by
  rw [overlap, overlap, preceding_moved hmoves hseq hhead]
  cases preceding flowData pkt with
  | none => rfl
  | some p =>
      simp only [Option.map_some, hmoves.seq, hmoves.dataLen]
      rw [((hmoves.shifted p.seq).add64 p.dataLen).toInt_sub64 hseq]

variable (hlen : movedPkt.dataLength = pkt.dataLength)

include hlen

omit hmoves hhead in
theorem nxtSeq_moved : ShiftedBy d pkt.nxtSeq movedPkt.nxtSeq := by
  rw [TcpPacket.nxtSeq, TcpPacket.nxtSeq, hlen]
  exact hseq.add64 pkt.dataLength

theorem spansBehind_moved :
    spansBehind movedPkt.nxtSeq (succeeding moved movedPkt) =
      (spansBehind pkt.nxtSeq (succeeding flowData pkt)).map
        (Prod.map g g) := by
  rw [succeeding_moved hmoves hhead hseq]
  exact spansBehind_map hmoves (nxtSeq_moved hseq hlen) _

theorem alone_moved : moved.Alone movedPkt ↔ flowData.Alone pkt := by
  rw [TcpFlowData.Alone, TcpFlowData.Alone, preceding_moved hmoves hseq hhead,
    spansBehind_moved hmoves hhead hseq hlen, Option.map_eq_none_iff,
    List.map_eq_nil_iff]

end Moved

section Queueing

variable {own other disorderDepth : Nat} {flowData moved : TcpFlowData}
  {pkt movedPkt : TcpPacket}

theorem queues_moved (hseq : pkt.sequence < 2 ^ 32)
    (hseq' : movedPkt.sequence < 2 ^ 32)
    (hstep : StepShifted own other (queueSegment disorderDepth flowData pkt)
      (queueSegment disorderDepth moved movedPkt)) :
    moved.Queues disorderDepth movedPkt ↔
      flowData.Queues disorderDepth pkt := by
  rw [← queueSegment_queued_iff hseq, ← queueSegment_queued_iff hseq',
    hstep.outcome]

theorem head_ne_nil_moved {queue queue' : List TsegQent}
    (h : QueueShifted own other queue queue') (hne : queue ≠ []) :
    queue' ≠ [] := by
  rw [← List.length_pos_iff] at hne ⊢
  rwa [← h.length_eq]

/-- Other acknowledgement numbers leave `rcv_nxt` where it is. -/
theorem queueSegment_rcvNxt_shiftAck {d : Nat} (hseq : pkt.sequence < 2 ^ 32)
    (hpkt : movedPkt.sequence = pkt.sequence)
    (hlen : movedPkt.dataLength = pkt.dataLength)
    (hstep : StepShifted own other (queueSegment disorderDepth flowData pkt)
      (queueSegment disorderDepth (flowData.shiftAck d) movedPkt))
    (hhead : (queueSegment disorderDepth flowData pkt).2.1.head ≠ []) :
    (queueSegment disorderDepth (flowData.shiftAck d) movedPkt).2.1.rcvNxt =
      (queueSegment disorderDepth flowData pkt).2.1.rcvNxt := by
  have hseq' : movedPkt.sequence < 2 ^ 32 := hpkt ▸ hseq
  have hmoved := queues_moved hseq hseq' hstep
  have hshift : ShiftedBy 0 pkt.sequence movedPkt.sequence := by
    rw [hpkt]
    exact shiftedBy_zero _
  have hsame : (flowData.shiftAck d).head =
      flowData.head.map (TsegQent.shiftAck d) := rfl
  have hmoves := moves_shiftAck d
  have hnxt : movedPkt.nxtSeq = pkt.nxtSeq := by
    rw [TcpPacket.nxtSeq, TcpPacket.nxtSeq, hpkt, hlen]
  by_cases h : flowData.Queues disorderDepth pkt
  · rw [queueSegment_rcvNxt hseq h, queueSegment_rcvNxt hseq' (hmoved.mpr h),
      overlap_moved hmoves hsame hshift,
      spansBehind_moved hmoves hsame hshift hlen, hpkt, hnxt]
    simp only [alone_moved hmoves hsame hshift hlen, Prod.map_id, List.map_id]
    rfl
  · rw [queueSegment_rcvNxt_kept hseq h hhead,
      queueSegment_rcvNxt_kept hseq' (mt hmoved.mp h)
        (head_ne_nil_moved hstep.head hhead)]
    rfl

/-- What is left behind a packet lies in the window of the queue and the
packet. -/
theorem spansIn_behind {lo stop : Nat} (hstop : InWindow lo stop)
    {back : List TsegQent}
    (hback : ∀ q ∈ back,
      q.seq < 2 ^ 32 ∧ InWindow lo q.seq ∧ InWindow lo q.nxtSeq) :
    SpansIn lo (spansBehind stop back) := by
  have hleft : ∀ q ∈ back.dropWhile (TsegQent.coveredTo stop),
      q.seq < 2 ^ 32 ∧ InWindow lo q.seq ∧ InWindow lo q.nxtSeq :=
    fun q hq => hback q ((List.dropWhile_sublist _).subset hq)
  rw [spansBehind]
  cases hdrop : back.dropWhile (TsegQent.coveredTo stop) with
  | nil => exact List.forall_mem_nil _
  | cons q rest =>
      rw [hdrop] at hleft
      intro span hspan
      rcases List.mem_cons.mp hspan with rfl | hspan
      · obtain ⟨hlt, hfirst, hlast⟩ := hleft q List.mem_cons_self
        refine ⟨?_, ?_, hlast⟩
        · simp only
          split
          · exact Nat.mod_lt _ (Nat.two_pow_pos 32)
          · exact hlt
        · simp only
          split
          · refine InWindow.of_same ?_ hstop
            unfold ringDistance
            omega
          · exact hfirst
      · obtain ⟨q, hq, rfl⟩ := List.mem_map.mp hspan
        exact hleft q (List.mem_cons_of_mem _ hq)

/-- The queueing part leaves `rcv_nxt` shifted exactly if the packet and the
entries behind it are followed as far after the shift. -/
theorem queueSegment_rcvNxt_shift_iff {lo d : Nat}
    (hseq : pkt.sequence < 2 ^ 32)
    (hpkt : movedPkt.sequence = shift32 d pkt.sequence)
    (hlen : movedPkt.dataLength = pkt.dataLength)
    (hstep : StepShifted own other (queueSegment disorderDepth flowData pkt)
      (queueSegment disorderDepth (flowData.shift d) movedPkt))
    (hqueue : ∀ q ∈ flowData.head,
      q.seq < 2 ^ 32 ∧ InWindow lo q.seq ∧ InWindow lo q.nxtSeq)
    (hrcvNxt : flowData.head ≠ [] → InWindow lo flowData.rcvNxt)
    (hend : InWindow lo pkt.nxtSeq) :
    ((queueSegment disorderDepth flowData pkt).2.1.head ≠ [] →
        ShiftedBy d (queueSegment disorderDepth flowData pkt).2.1.rcvNxt
          (queueSegment disorderDepth (flowData.shift d)
            movedPkt).2.1.rcvNxt) ↔
      (flowData.Queues disorderDepth pkt → ¬ flowData.Alone pkt →
        FollowKept d (pkt.sequence + (overlap flowData pkt).toNat)
          (shift32 d pkt.sequence + (overlap flowData pkt).toNat) pkt.nxtSeq
          movedPkt.nxtSeq flowData.rcvNxt
          (spansBehind pkt.nxtSeq (succeeding flowData pkt))) := by
  have hseq' : movedPkt.sequence < 2 ^ 32 :=
    hpkt ▸ Nat.mod_lt _ (Nat.two_pow_pos 32)
  have hmoved := queues_moved hseq hseq' hstep
  have hshift : ShiftedBy d pkt.sequence movedPkt.sequence := by
    rw [hpkt]
    exact shiftedBy_shift32 d _
  have hsame : (flowData.shift d).head =
      flowData.head.map (TsegQent.shift d) := rfl
  have hmoves := moves_shift d
  have hnxt := nxtSeq_moved hshift hlen
  by_cases h : flowData.Queues disorderDepth pkt
  · rw [forall_prop_of_true (queueSegment_head_ne_nil hseq h),
      forall_prop_of_true h, queueSegment_rcvNxt hseq h,
      queueSegment_rcvNxt hseq' (hmoved.mpr h),
      overlap_moved hmoves hsame hshift,
      spansBehind_moved hmoves hsame hshift hlen, hpkt]
    simp only [alone_moved hmoves hsame hshift hlen]
    by_cases halone : flowData.Alone pkt
    · rw [if_pos halone, if_pos halone]
      exact iff_of_true hnxt fun hnot => absurd halone hnot
    · rw [if_neg halone, if_neg halone, forall_prop_of_true halone]
      have hspans : SpansIn lo
          (spansBehind pkt.nxtSeq (succeeding flowData pkt)) :=
        spansIn_behind hend fun q hq =>
          hqueue q ((List.dropWhile_sublist _).subset hq)
      have hhead : flowData.head ≠ [] := fun hempty =>
        halone (alone_of_empty hempty pkt)
      refine follow_shifted_iff hspans ?_ hnxt (hrcvNxt hhead) hend ?_
      · have hadd := (shiftedBy_shift32 d pkt.sequence)
        unfold ShiftedBy at hadd ⊢
        omega
      · intro hnone
        rcases h.left with hzero | hless
        · rw [hzero, Int.toNat_zero, Nat.add_zero, Nat.add_zero]
          exact ⟨hseq, hpkt ▸ hseq'⟩
        · rw [seqGt_nxtSeq hless] at hnone
          cases hnone
  · refine iff_of_true (fun hhead => ?_) fun hqueues => absurd hqueues h
    rw [queueSegment_rcvNxt_kept hseq h hhead,
      queueSegment_rcvNxt_kept hseq' (mt hmoved.mp h)
        (head_ne_nil_moved hstep.head hhead)]
    exact shiftedBy_shift32 d _

end Queueing

section Acknowledge

variable {d : Nat} {flowData : TcpFlowData}

/-- What an acknowledgement leaves is shifted with the queue. -/
theorem dropWhile_shift {rcvNxt : Nat} {queue : List TsegQent}
    (h : OrderKept d rcvNxt queue) :
    (queue.map (TsegQent.shift d)).dropWhile
        (fun q => q.nxtSeq ≤ shift32 d rcvNxt) =
      (queue.dropWhile fun q => q.nxtSeq ≤ rcvNxt).map (TsegQent.shift d) := by
  induction queue with
  | nil => rfl
  | cons q rest ih =>
      obtain ⟨horder, hrest⟩ := h
      have hnxt : (q.shift d).nxtSeq = shift32 d q.nxtSeq := rfl
      rw [List.map_cons, List.dropWhile_cons, List.dropWhile_cons, hnxt]
      by_cases hbelow : q.nxtSeq ≤ rcvNxt
      · rw [if_pos (decide_eq_true hbelow),
          if_pos (decide_eq_true (horder.mpr hbelow))]
        exact ih (hrest hbelow)
      · rw [decide_eq_false hbelow, decide_eq_false (mt horder.mp hbelow),
          if_neg Bool.false_ne_true, if_neg Bool.false_ne_true, List.map_cons]

/-- An acknowledgement leaves `rcv_nxt` shifted exactly if the entries that it
leaves are met plainly. -/
theorem sendReverseTcpflow_rcvNxt_shift_iff {lo ackNum ackNum' : Nat}
    (hack : ShiftedBy d ackNum ackNum')
    (horder : toInt (sub64 ackNum flowData.rcvNxt) = 0 →
      OrderKept d flowData.rcvNxt flowData.head)
    (hqueue : ∀ q ∈ flowData.head,
      q.seq < 2 ^ 32 ∧ InWindow lo q.seq ∧ InWindow lo q.nxtSeq) :
    ((sendReverseTcpflow flowData ackNum).1.head ≠ [] →
        ShiftedBy d (sendReverseTcpflow flowData ackNum).1.rcvNxt
          (sendReverseTcpflow (flowData.shift d) ackNum').1.rcvNxt) ↔
      (toInt (sub64 ackNum flowData.rcvNxt) = 0 →
        ∀ q ∈ (unacked flowData).head?,
          MeetsPlainly false ((unacked flowData).map TsegQent.span) q.seq) := by
  rw [(sendReverseTcpflow_eq flowData ackNum).1]
  by_cases hzero : toInt (sub64 ackNum flowData.rcvNxt) = 0
  · have hzero' : toInt (sub64 ackNum' (flowData.shift d).rcvNxt) = 0 := by
      rw [← hzero]
      exact hack.toInt_sub64 (shiftedBy_shift32 d flowData.rcvNxt)
    have hdrop : unacked (flowData.shift d) =
        (unacked flowData).map (TsegQent.shift d) :=
      dropWhile_shift (horder hzero)
    rw [if_pos hzero, forall_prop_of_true hzero, ← unacked]
    cases hleft : unacked flowData with
    | nil =>
        refine iff_of_true (fun hne => absurd rfl hne) fun q hq => ?_
        cases hq
    | cons q rest =>
        have hspans : SpansIn lo ((q :: rest).map TsegQent.span) := by
          intro span hspan
          obtain ⟨entry, hentry, rfl⟩ := List.mem_map.mp hspan
          rw [← hleft] at hentry
          exact hqueue entry ((List.dropWhile_sublist _).subset hentry)
        have hmoved : ((q :: rest).map (TsegQent.shift d)).map TsegQent.span =
            ((q :: rest).map TsegQent.span).map
              (Prod.map (shift32 d) (shift32 d)) := by
          rw [List.map_map, List.map_map]
          exact List.map_congr_left fun entry _ => (moves_shift d).span entry
        rw [hleft, List.map_cons] at hdrop
        rw [forall_prop_of_true (List.cons_ne_nil q rest),
          sendReverseTcpflow_rcvNxt hzero hleft,
          sendReverseTcpflow_rcvNxt hzero' hdrop, ← List.map_cons, hmoved,
          List.head?_cons]
        simp only [Option.mem_some_iff, forall_eq']
        exact plainWalk_shifted_iff hspans
  · rw [if_neg hzero]
    exact iff_of_true (fun hne => absurd rfl hne) fun hack => absurd hack hzero

/-- Other acknowledgement numbers in the queue leave `rcv_nxt` where it is. -/
theorem sendReverseTcpflow_rcvNxt_shiftAck (d ackNum : Nat)
    (hhead : (sendReverseTcpflow flowData ackNum).1.head ≠ []) :
    (sendReverseTcpflow (flowData.shiftAck d) ackNum).1.rcvNxt =
      (sendReverseTcpflow flowData ackNum).1.rcvNxt := by
  rw [(sendReverseTcpflow_eq flowData ackNum).1] at hhead
  by_cases hzero : toInt (sub64 ackNum flowData.rcvNxt) = 0
  · rw [if_pos hzero, ← unacked] at hhead
    have hdrop : unacked (flowData.shiftAck d) =
        (unacked flowData).map (TsegQent.shiftAck d) := by
      simp only [unacked, TcpFlowData.shiftAck, List.dropWhile_map]
      rfl
    cases hleft : unacked flowData with
    | nil => exact absurd hleft hhead
    | cons q rest =>
        rw [hleft, List.map_cons] at hdrop
        have hzero' : toInt (sub64 ackNum (flowData.shiftAck d).rcvNxt) = 0 :=
          hzero
        rw [sendReverseTcpflow_rcvNxt hzero hleft,
          sendReverseTcpflow_rcvNxt hzero' hdrop, ← List.map_cons,
          List.map_map]
        rfl
  · rw [if_neg hzero] at hhead
    exact absurd rfl hhead

end Acknowledge

/-- The moves of `rcv_nxt` that the call makes come as far after the shift. -/
structure RcvNxtKept (disorderDepth : Nat) (direction : FlowDirection) (d : Nat)
    (ssn : MppSsn) (pkt : TcpPacket) : Prop where
  drained : pkt.direction ≠ direction →
    ssn.ssnSeq pkt.direction ≤ pkt.sequence →
    (ssn.flow pkt.direction).rev = true →
    toInt (sub64 pkt.ackNum (ssn.flow direction).rcvNxt) = 0 →
    ∀ q ∈ (unacked (ssn.flow direction)).head?, MeetsPlainly false
      ((unacked (ssn.flow direction)).map TsegQent.span) q.seq
  followed : pkt.direction = direction →
    ssn.ssnSeq direction ≤ pkt.sequence →
    pkt.has (thFin ||| thRst) = false →
    (ssn.flow direction).tsegqeLen < disorderDepth → pkt.allocOk = true →
    (ssn.flow direction).Queues disorderDepth pkt →
    ¬ (ssn.flow direction).Alone pkt →
    FollowKept d
      (pkt.sequence + (overlap (ssn.flow direction) pkt).toNat)
      (shift32 d pkt.sequence + (overlap (ssn.flow direction) pkt).toNat)
      pkt.nxtSeq (add64 (shift32 d pkt.sequence) pkt.dataLength)
      (ssn.flow direction).rcvNxt
      (spansBehind pkt.nxtSeq (succeeding (ssn.flow direction) pkt))

/-- No plain comparison that the call reaches sees the shift. -/
structure SidesKept (disorderDepth : Nat) (direction : FlowDirection) (d : Nat)
    (ssn : MppSsn) (pkt : TcpPacket) : Prop extends
    OrdersKept disorderDepth direction d ssn pkt,
    RcvNxtKept disorderDepth direction d ssn pkt

/-- The sequence numbers of a direction that a call has before it: those of
the session, where `rcv_nxt` is one as long as there is a queue that it belongs
to, and the packet's first and the one behind its last, or the one that it
acknowledges. -/
def seqNumbers (direction : FlowDirection) (ssn : MppSsn) (pkt : TcpPacket) :
    List Nat :=
  ssn.ssnSeq direction ::
    (if (ssn.flow direction).head = [] then []
      else [(ssn.flow direction).rcvNxt]) ++
    (if pkt.direction = direction then [pkt.sequence, pkt.nxtSeq]
      else [pkt.ackNum]) ++
    (ssn.flow direction).head.flatMap (fun q => [q.seq, q.nxtSeq]) ++
    (ssn.flow direction.other).head.map TsegQent.ackNum

section Call

variable {disorderDepth : Nat} {ssn : MppSsn} {pkt : TcpPacket}

/-- What a call that is not refused leaves of the other flow. -/
theorem reassTcp_flow_other (disorderDepth : Nat)
    (hfirst : ¬ pkt.sequence < ssn.ssnSeq pkt.direction) :
    (reassTcp disorderDepth ssn pkt).ssn.flow pkt.direction.other =
      (ackReverse (ssn.flow pkt.direction) (ssn.flow pkt.direction.other)
        pkt.ackNum).1 := by
  have hother := FlowDirection.other_ne pkt.direction
  simp only [reassTcp, if_neg hfirst]
  split
  · rw [MppSsn.flow_setFlow_of_ne _ hother, MppSsn.flow_setFlow_self]
  · split
    · rw [MppSsn.flow_setFlow_self]
    · split
      · rw [MppSsn.flow_setFlow_self]
      · simp only
        rw [MppSsn.flow_setFlow_of_ne _ hother, MppSsn.flow_setFlow_self]

/-- The packet gets as far as the search for its place. -/
def MppSsn.Reaches (disorderDepth : Nat) (ssn : MppSsn) (pkt : TcpPacket) :
    Prop :=
  pkt.has (thFin ||| thRst) = false ∧
    (ssn.flow pkt.direction).tsegqeLen < disorderDepth ∧ pkt.allocOk = true

/-- What a call that is not refused leaves of the packet's own flow. -/
theorem reassTcp_flow_self
    (hfirst : ¬ pkt.sequence < ssn.ssnSeq pkt.direction)
    (hreaches : ssn.Reaches disorderDepth pkt) :
    (reassTcp disorderDepth ssn pkt).ssn.flow pkt.direction =
      (queueSegment disorderDepth (ssn.flow pkt.direction) pkt).2.1 := by
  obtain ⟨hpurge, hroom, halloc⟩ := hreaches
  simp only [reassTcp, if_neg hfirst, hpurge, if_neg (Nat.not_le.mpr hroom),
    halloc, Bool.not_true, Bool.false_eq_true, if_false]
  rw [MppSsn.flow_setFlow_self]

/-- A call that does not get there empties the flow or leaves it. -/
theorem reassTcp_flow_self_of_not
    (hfirst : ¬ pkt.sequence < ssn.ssnSeq pkt.direction)
    (hreaches : ¬ ssn.Reaches disorderDepth pkt)
    (hhead : ((reassTcp disorderDepth ssn pkt).ssn.flow pkt.direction).head ≠
      []) :
    (reassTcp disorderDepth ssn pkt).ssn.flow pkt.direction =
      ssn.flow pkt.direction := by
  have hother := (FlowDirection.other_ne pkt.direction).symm
  simp only [reassTcp, if_neg hfirst] at hhead ⊢
  split
  · rename_i hpurge
    rw [if_pos hpurge, MppSsn.flow_setFlow_self] at hhead
    exact absurd rfl hhead
  · split
    · rw [MppSsn.flow_setFlow_of_ne _ hother]
    · split
      · rw [MppSsn.flow_setFlow_of_ne _ hother]
      · refine absurd ⟨?_, ?_, ?_⟩ hreaches
        · simpa using ‹¬ pkt.has (thFin ||| thRst) = true›
        · exact Nat.not_le.mp ‹_›
        · simpa using ‹¬ (!pkt.allocOk) = true›

/-- A refused call changes nothing. -/
theorem reassTcp_ssn_of_first
    (hfirst : pkt.sequence < ssn.ssnSeq pkt.direction) :
    (reassTcp disorderDepth ssn pkt).ssn = ssn := by
  simp only [reassTcp, if_pos hfirst]

end Call

section Acked

variable {d : Nat} (fwd fwd' rev : TcpFlowData)

theorem ackReverse_rcvNxt_shiftAck (d : Nat) (hrev : fwd'.rev = fwd.rev) (ackNum : Nat)
    (hhead : (ackReverse fwd rev ackNum).1.head ≠ []) :
    (ackReverse fwd' (rev.shiftAck d) ackNum).1.rcvNxt =
      (ackReverse fwd rev ackNum).1.rcvNxt := by
  have hempty : (rev.shiftAck d).head ≠ [] ↔ rev.head ≠ [] := by
    simp only [TcpFlowData.shiftAck, ne_eq, List.map_eq_nil_iff]
  rw [ackReverse] at hhead ⊢
  rw [ackReverse, hrev]
  simp only [hempty]
  split
  · rw [if_pos ‹_›] at hhead
    exact sendReverseTcpflow_rcvNxt_shiftAck d ackNum hhead
  · rfl

theorem ackReverse_rcvNxt_shift_iff {lo ackNum ackNum' : Nat}
    (hrev : fwd'.rev = fwd.rev) (hack : ShiftedBy d ackNum ackNum')
    (horder : fwd.rev = true → toInt (sub64 ackNum rev.rcvNxt) = 0 →
      OrderKept d rev.rcvNxt rev.head)
    (hqueue : ∀ q ∈ rev.head,
      q.seq < 2 ^ 32 ∧ InWindow lo q.seq ∧ InWindow lo q.nxtSeq) :
    ((ackReverse fwd rev ackNum).1.head ≠ [] →
        ShiftedBy d (ackReverse fwd rev ackNum).1.rcvNxt
          (ackReverse fwd' (rev.shift d) ackNum').1.rcvNxt) ↔
      (fwd.rev = true → toInt (sub64 ackNum rev.rcvNxt) = 0 →
        ∀ q ∈ (unacked rev).head?,
          MeetsPlainly false ((unacked rev).map TsegQent.span) q.seq) := by
  have hempty : (rev.shift d).head ≠ [] ↔ rev.head ≠ [] := by
    simp only [TcpFlowData.shift, ne_eq, List.map_eq_nil_iff]
  rw [ackReverse, ackReverse, hrev]
  simp only [hempty]
  by_cases hruns : fwd.rev = true ∧ rev.head ≠ []
  · rw [if_pos hruns, if_pos hruns, forall_prop_of_true hruns.1]
    exact sendReverseTcpflow_rcvNxt_shift_iff hack (horder hruns.1) hqueue
  · rw [if_neg hruns, if_neg hruns]
    refine iff_of_true (fun _ => shiftedBy_shift32 d rev.rcvNxt) ?_
    intro hset _ q hq
    have hnil : rev.head = [] := by
      by_contra hne
      exact hruns ⟨hset, hne⟩
    rw [unacked, hnil] at hq
    cases hq

end Acked

section Law

variable {disorderDepth : Nat} {direction : FlowDirection} {d lo : Nat}
  {ssn : MppSsn} {pkt : TcpPacket}

theorem forall_direction_iff (direction : FlowDirection)
    {P : FlowDirection → Prop} :
    (∀ of, P of) ↔ P direction ∧ P direction.other := by
  constructor
  · exact fun h => ⟨h direction, h direction.other⟩
  · rintro ⟨hself, hother⟩ of
    rcases FlowDirection.eq_or_other direction of with rfl | rfl
    · exact hself
    · exact hother

variable (hagree : PlainAgree disorderDepth ssn pkt (ssn.shift direction d)
    (pkt.shift direction d))

theorem TcpPacket.shift_direction (pkt : TcpPacket) :
    (pkt.shift direction d).direction = pkt.direction :=
  (pkt.shift_shifted direction d).direction

include hagree

theorem not_first_shift (hfirst : ¬ pkt.sequence < ssn.ssnSeq pkt.direction) :
    ¬ (pkt.shift direction d).sequence < (ssn.shift direction d).ssnSeq
      (pkt.shift direction d).direction := by
  rw [TcpPacket.shift_direction, hagree.first]
  exact hfirst

omit hagree in
theorem reaches_shift_iff :
    (ssn.shift direction d).Reaches disorderDepth (pkt.shift direction d) ↔
      ssn.Reaches disorderDepth pkt := by
  have hpkt := pkt.shift_shifted direction d
  rw [MppSsn.Reaches, MppSsn.Reaches, hpkt.has, hpkt.direction, hpkt.allocOk,
    (ssn.shift_shifted direction d pkt.direction).tsegqeLen]

theorem queueSegment_shift
    (hfirst : ¬ pkt.sequence < ssn.ssnSeq pkt.direction)
    (hreaches : ssn.Reaches disorderDepth pkt) :
    StepShifted (amountOf direction d pkt.direction)
      (amountOf direction d pkt.direction.other)
      (queueSegment disorderDepth (ssn.flow pkt.direction) pkt)
      (queueSegment disorderDepth ((ssn.shift direction d).flow pkt.direction)
        (pkt.shift direction d)) :=
  queueSegment_shifted disorderDepth (pkt.shift_shifted direction d)
    (ssn.shift_shifted direction d pkt.direction).tsegqeLen
    (ssn.shift_shifted direction d pkt.direction).head
    (hagree.near (Nat.not_lt.mp hfirst) hreaches.1 hreaches.2.1 hreaches.2.2)

/-- What is left of the packet's own flow, after a call that gets to the search
or one that does not. -/
theorem flow_self_shift
    (hfirst : ¬ pkt.sequence < ssn.ssnSeq pkt.direction) :
    (ssn.Reaches disorderDepth pkt →
      (reassTcp disorderDepth (ssn.shift direction d)
          (pkt.shift direction d)).ssn.flow pkt.direction =
        (queueSegment disorderDepth ((ssn.shift direction d).flow
          pkt.direction) (pkt.shift direction d)).2.1) ∧
    (¬ ssn.Reaches disorderDepth pkt →
      ((reassTcp disorderDepth (ssn.shift direction d)
        (pkt.shift direction d)).ssn.flow pkt.direction).head ≠ [] →
      (reassTcp disorderDepth (ssn.shift direction d)
          (pkt.shift direction d)).ssn.flow pkt.direction =
        (ssn.shift direction d).flow pkt.direction) := by
  have hfirst' := not_first_shift hagree hfirst
  constructor
  · intro hreaches
    have hself := reassTcp_flow_self hfirst' (reaches_shift_iff.mpr hreaches)
    rwa [TcpPacket.shift_direction] at hself
  · intro hreaches hhead
    have hself := reassTcp_flow_self_of_not hfirst'
      (mt reaches_shift_iff.mp hreaches)
    rw [TcpPacket.shift_direction] at hself
    exact hself hhead

theorem flow_other_shift
    (hfirst : ¬ pkt.sequence < ssn.ssnSeq pkt.direction) :
    (reassTcp disorderDepth (ssn.shift direction d)
        (pkt.shift direction d)).ssn.flow pkt.direction.other =
      (ackReverse ((ssn.shift direction d).flow pkt.direction)
        ((ssn.shift direction d).flow pkt.direction.other)
        (pkt.shift direction d).ackNum).1 := by
  have hother := reassTcp_flow_other disorderDepth
    (not_first_shift hagree hfirst)
  rwa [TcpPacket.shift_direction] at hother

/-- A shift of the packet's own direction is seen by `rcv_nxt` of its flow
only. -/
theorem rcvNxt_own_iff (hown : pkt.direction = direction)
    (hpkt : pkt.sequence < 2 ^ 32)
    (hqueue : ∀ q ∈ (ssn.flow direction).head,
      q.seq < 2 ^ 32 ∧ InWindow lo q.seq ∧ InWindow lo q.nxtSeq)
    (hrcvNxt : (ssn.flow direction).head ≠ [] →
      InWindow lo (ssn.flow direction).rcvNxt)
    (hend : InWindow lo pkt.nxtSeq)
    (hfirst : ¬ pkt.sequence < ssn.ssnSeq pkt.direction) :
    (∀ of, ((reassTcp disorderDepth ssn pkt).ssn.flow of).head ≠ [] →
        ShiftedBy (amountOf direction d of)
          ((reassTcp disorderDepth ssn pkt).ssn.flow of).rcvNxt
          ((reassTcp disorderDepth (ssn.shift direction d)
            (pkt.shift direction d)).ssn.flow of).rcvNxt) ↔
      RcvNxtKept disorderDepth direction d ssn pkt := by
  subst hown
  have hne := FlowDirection.other_ne pkt.direction
  have hseq : (pkt.shift pkt.direction d).sequence =
      shift32 d pkt.sequence := by
    rw [TcpPacket.shift, if_pos rfl]
  have hack : (pkt.shift pkt.direction d).ackNum = pkt.ackNum := by
    rw [TcpPacket.shift, if_pos rfl]
  have hlen : (pkt.shift pkt.direction d).dataLength = pkt.dataLength :=
    (pkt.shift_shifted pkt.direction d).dataLength
  have hend' : (pkt.shift pkt.direction d).nxtSeq =
      add64 (shift32 d pkt.sequence) pkt.dataLength := by
    rw [TcpPacket.nxtSeq, hseq, hlen]
  obtain ⟨hqueued, hkept⟩ := flow_self_shift hagree hfirst
  rw [forall_direction_iff pkt.direction, reassTcp_flow_other _ hfirst,
    flow_other_shift hagree hfirst, hack, MppSsn.shift_flow_self,
    MppSsn.shift_flow_of_ne hne, amountOf, if_pos rfl, amountOf, if_neg hne]
  have hother := ackReverse_rcvNxt_shiftAck (ssn.flow pkt.direction)
    ((ssn.flow pkt.direction).shift d) (ssn.flow pkt.direction.other) d rfl
    pkt.ackNum
  rw [and_iff_left fun hhead => by
    rw [hother hhead]
    exact shiftedBy_zero _]
  by_cases hreaches : ssn.Reaches disorderDepth pkt
  · have hstep := queueSegment_shift hagree hfirst hreaches
    rw [MppSsn.shift_flow_self] at hqueued hstep
    rw [reassTcp_flow_self hfirst hreaches, hqueued hreaches,
      queueSegment_rcvNxt_shift_iff hpkt hseq hlen hstep hqueue hrcvNxt hend,
      hend']
    exact ⟨fun h => ⟨fun hne => absurd rfl hne, fun _ _ _ _ _ => h⟩,
      fun h => h.followed rfl (Nat.not_lt.mp hfirst) hreaches.1 hreaches.2.1
        hreaches.2.2⟩
  · refine iff_of_true (fun hhead => ?_) ⟨fun hne => absurd rfl hne,
      fun _ _ hpurge hroom halloc =>
        absurd ⟨hpurge, hroom, halloc⟩ hreaches⟩
    have hself := reassTcp_flow_self_of_not hfirst hreaches hhead
    have hsame := (reassTcp_queuesShifted (ssn.shift_shifted pkt.direction d)
      (pkt.shift_shifted pkt.direction d) hagree).queue pkt.direction
    rw [hself, hkept hreaches (head_ne_nil_moved hsame hhead),
      MppSsn.shift_flow_self]
    exact shiftedBy_shift32 d _

/-- A shift of the other direction is seen by `rcv_nxt` of the flow that the
packet acknowledges only. -/
theorem rcvNxt_other_iff (hown : pkt.direction ≠ direction)
    (hpkt : pkt.sequence < 2 ^ 32)
    (horder : (ssn.flow pkt.direction).rev = true →
      toInt (sub64 pkt.ackNum (ssn.flow direction).rcvNxt) = 0 →
      OrderKept d (ssn.flow direction).rcvNxt (ssn.flow direction).head)
    (hqueue : ∀ q ∈ (ssn.flow direction).head,
      q.seq < 2 ^ 32 ∧ InWindow lo q.seq ∧ InWindow lo q.nxtSeq)
    (hfirst : ¬ pkt.sequence < ssn.ssnSeq pkt.direction) :
    (∀ of, ((reassTcp disorderDepth ssn pkt).ssn.flow of).head ≠ [] →
        ShiftedBy (amountOf direction d of)
          ((reassTcp disorderDepth ssn pkt).ssn.flow of).rcvNxt
          ((reassTcp disorderDepth (ssn.shift direction d)
            (pkt.shift direction d)).ssn.flow of).rcvNxt) ↔
      RcvNxtKept disorderDepth direction d ssn pkt := by
  obtain rfl : direction = pkt.direction.other :=
    (FlowDirection.eq_or_other pkt.direction direction).resolve_left
      fun heq => hown heq.symm
  have hseq : (pkt.shift pkt.direction.other d).sequence = pkt.sequence := by
    rw [TcpPacket.shift, if_neg hown]
  have hack : ShiftedBy d pkt.ackNum
      (pkt.shift pkt.direction.other d).ackNum := by
    rw [TcpPacket.shift, if_neg hown]
    exact shiftedBy_shift32 d pkt.ackNum
  have hlen : (pkt.shift pkt.direction.other d).dataLength = pkt.dataLength :=
    (pkt.shift_shifted pkt.direction.other d).dataLength
  obtain ⟨hqueued, hkept⟩ := flow_self_shift hagree hfirst
  rw [forall_direction_iff pkt.direction, reassTcp_flow_other _ hfirst,
    flow_other_shift hagree hfirst, MppSsn.shift_flow_self,
    MppSsn.shift_flow_of_ne hown, amountOf, if_neg hown, amountOf, if_pos rfl,
    ackReverse_rcvNxt_shift_iff (ssn.flow pkt.direction)
      ((ssn.flow pkt.direction).shiftAck d) (ssn.flow pkt.direction.other) rfl
      hack horder hqueue]
  have hown_kept : ((reassTcp disorderDepth ssn pkt).ssn.flow
      pkt.direction).head ≠ [] → ShiftedBy 0
        ((reassTcp disorderDepth ssn pkt).ssn.flow pkt.direction).rcvNxt
        ((reassTcp disorderDepth (ssn.shift pkt.direction.other d)
          (pkt.shift pkt.direction.other d)).ssn.flow
            pkt.direction).rcvNxt := by
    intro hhead
    by_cases hreaches : ssn.Reaches disorderDepth pkt
    · have hstep := queueSegment_shift hagree hfirst hreaches
      rw [MppSsn.shift_flow_of_ne hown] at hqueued hstep
      rw [reassTcp_flow_self hfirst hreaches] at hhead ⊢
      rw [hqueued hreaches,
        queueSegment_rcvNxt_shiftAck hpkt hseq hlen hstep hhead]
      exact shiftedBy_zero _
    · have hself := reassTcp_flow_self_of_not hfirst hreaches hhead
      have hsame := (reassTcp_queuesShifted
        (ssn.shift_shifted pkt.direction.other d)
        (pkt.shift_shifted pkt.direction.other d) hagree).queue pkt.direction
      rw [hself, hkept hreaches (head_ne_nil_moved hsame hhead),
        MppSsn.shift_flow_of_ne hown]
      exact shiftedBy_zero _
  rw [and_iff_right hown_kept]
  exact ⟨fun h => ⟨fun _ _ => h, fun heq => absurd heq hown⟩,
    fun h => h.drained hown (Nat.not_lt.mp hfirst)⟩

end Law

/-- A session that starts 30 bytes before the end of the sequence space. -/
def lateSsn : MppSsn :=
  (reassTcp 5 (ssnPrepare (2 ^ 32 - 30) 0)
    ⟨2 ^ 32 - 30, 0, fun _ => 1, 10, 0, .positive, true⟩).ssn

/-- The next bytes of the same side. -/
def nextPacket : TcpPacket :=
  ⟨2 ^ 32 - 20, 0, fun _ => 2, 5, 0, .positive, true⟩

/-- The same session with the five bytes behind the next packet. -/
def gapSsn : MppSsn :=
  (reassTcp 5 lateSsn ⟨2 ^ 32 - 15, 0, fun _ => 3, 5, 0, .positive, true⟩).ssn

/-- A shift by 15 carries only the end of the packet to that of the sequence
space.  `rcv_nxt` is then `2^32` and not 0, where the bytes behind it start. -/
example : ¬ ShiftInvariant 5 .positive 15 gapSsn nextPacket := by
  intro hsame
  have hrcvNxt := hsame.rcvNxt .positive (by decide)
  exact absurd hrcvNxt (by unfold ShiftedBy; decide)

end Barley
