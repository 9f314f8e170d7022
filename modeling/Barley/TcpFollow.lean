/-
Where a call leaves `rcv_nxt`.  The two loops that move it on are walks along
the entries of a queue, and what they walk along after a packet has been put
into its place is told by the queue and the packet before the call.
-/
import Barley.StreamWalk
import Barley.TcpShift

namespace Barley

/-- Where an entry starts, and where the next one should. -/
def TsegQent.span (q : TsegQent) : Nat × Nat := (q.seq, q.nxtSeq)

/-- A walk that compares plain numbers. -/
def plainWalk (stop : Bool) (spans : List (Nat × Nat)) (pos : Nat) : Nat :=
  Walk.walk (fun a b => a = b) seqGt stop spans pos

theorem plainWalk_cons (stop : Bool) (first last : Nat)
    (rest : List (Nat × Nat)) (pos : Nat) :
    plainWalk stop ((first, last) :: rest) pos =
      if first = pos then
        plainWalk stop rest (if seqGt last pos then last else pos)
      else if stop then pos
      else plainWalk stop rest pos := by
  rw [plainWalk, Walk.walk]
  simp only [decide_eq_true_eq]
  rfl

theorem followRcvNxt_plainWalk (queue : List TsegQent) (rcvNxt : Nat) :
    followRcvNxt queue rcvNxt =
      plainWalk true (queue.map TsegQent.span) rcvNxt := by
  induction queue generalizing rcvNxt with
  | nil => rfl
  | cons q rest ih =>
      rw [followRcvNxt, List.map_cons, TsegQent.span, plainWalk_cons, ih,
        advanceRcvNxt]
      split
      · simp only [*, true_and]
      · rfl

theorem foldl_advanceRcvNxt_plainWalk (queue : List TsegQent) (rcvNxt : Nat) :
    queue.foldl advanceRcvNxt rcvNxt =
      plainWalk false (queue.map TsegQent.span) rcvNxt := by
  induction queue generalizing rcvNxt with
  | nil => rfl
  | cons q rest ih =>
      rw [List.foldl_cons, List.map_cons, TsegQent.span, plainWalk_cons, ih,
        advanceRcvNxt, if_neg Bool.false_ne_true]
      by_cases hseq : q.seq = rcvNxt
      · simp only [hseq, true_and, if_true]
      · rw [if_neg hseq, if_neg fun h => hseq h.1]

section Reverse

variable {flowData : TcpFlowData}

/-- The entries that an acknowledgement of `rcv_nxt` leaves. -/
def unacked (flowData : TcpFlowData) : List TsegQent :=
  flowData.head.dropWhile fun q => q.nxtSeq ≤ flowData.rcvNxt

theorem drainAcked_rcvNxt_of_left (queue : List TsegQent)
    (hhead : flowData.head = queue) {q : TsegQent} {rest : List TsegQent}
    (hleft : queue.dropWhile (fun q => q.nxtSeq ≤ flowData.rcvNxt) =
      q :: rest) :
    (drainAcked queue flowData).1.rcvNxt = q.seq := by
  induction queue generalizing flowData with
  | nil => cases hleft
  | cons first others ih =>
      rw [List.dropWhile_cons] at hleft
      rw [drainAcked]
      by_cases hbelow : first.nxtSeq ≤ flowData.rcvNxt
      · rw [if_pos (decide_eq_true hbelow)] at hleft
        have hsent : (sendPacket flowData).head = others := by
          rw [sendPacket, hhead]
          rfl
        rw [if_pos hbelow]
        exact ih hsent hleft
      · rw [if_neg (fun h => hbelow (of_decide_eq_true h))] at hleft
        rw [if_neg hbelow, (List.cons.inj hleft).1]

/-- An acknowledgement of `rcv_nxt` moves it to the first entry that is left,
and on from there. -/
theorem sendReverseTcpflow_rcvNxt {ackNum : Nat}
    (hack : toInt (sub64 ackNum flowData.rcvNxt) = 0) {q : TsegQent}
    {rest : List TsegQent} (hleft : unacked flowData = q :: rest) :
    (sendReverseTcpflow flowData ackNum).1.rcvNxt =
      plainWalk false ((q :: rest).map TsegQent.span) q.seq := by
  have hdrop := (drainAcked_eq flowData.head flowData rfl).1
  rw [unacked] at hleft
  have hrcv := drainAcked_rcvNxt_of_left flowData.head rfl hleft
  rw [hleft] at hdrop
  rw [sendReverseTcpflow, if_pos hack]
  simp only [hdrop, hrcv, List.cons_ne_nil, if_false]
  exact foldl_advanceRcvNxt_plainWalk _ _

end Reverse

section Forward

/-- The packet covers what the entry holds: `stop` is the packet's end. -/
def TsegQent.coveredTo (stop : Nat) (q : TsegQent) : Bool :=
  0 < toInt (sub64 stop q.seq) ∧ toInt q.dataLen ≤ toInt (sub64 stop q.seq)

/-- The spans that are left behind a packet: covered entries are gone, and the
first one that is left starts at the packet's end if it started before. -/
def spansBehind (stop : Nat) (back : List TsegQent) : List (Nat × Nat) :=
  match back.dropWhile (TsegQent.coveredTo stop) with
  | [] => []
  | q :: rest =>
      (if 0 < toInt (sub64 stop q.seq) then stop % 2 ^ 32 else q.seq,
        q.nxtSeq) :: rest.map TsegQent.span

theorem add_toInt_sub64 {stop seq : Nat}
    (h : 0 < toInt (sub64 stop seq)) :
    (seq + (toInt (sub64 stop seq)).toNat) % 2 ^ 32 = stop % 2 ^ 32 := by
  unfold toInt sub64 at *
  split at h <;> omega

theorem trimSucceeding_eq (stop : Nat) (back : List TsegQent)
    (tsegqeLen : Nat) :
    (trimSucceeding stop back tsegqeLen).1.map TsegQent.span =
        spansBehind stop back ∧
      (trimSucceeding stop back tsegqeLen).2 =
        dec32^[(back.takeWhile (TsegQent.coveredTo stop)).length]
          tsegqeLen := by
  induction back generalizing tsegqeLen with
  | nil => exact ⟨rfl, (Function.iterate_zero_apply dec32 tsegqeLen).symm⟩
  | cons q rest ih =>
      rw [trimSucceeding, spansBehind, List.dropWhile_cons, List.takeWhile_cons]
      by_cases hbefore : 0 < toInt (sub64 stop q.seq)
      · rw [if_neg (Int.not_le.mpr hbefore)]
        by_cases hkeeps : toInt (sub64 stop q.seq) < toInt q.dataLen
        · have hcovered : q.coveredTo stop = false :=
            decide_eq_false fun h => Int.not_le.mpr hkeeps h.2
          rw [if_pos hkeeps, hcovered]
          simp only [Bool.false_eq_true, if_false, List.length_nil,
            Function.iterate_zero_apply, hbefore, if_true, List.map_cons,
            TsegQent.span, add_toInt_sub64 hbefore, and_self]
        · have hcovered : q.coveredTo stop = true :=
            decide_eq_true ⟨hbefore, Int.not_lt.mp hkeeps⟩
          rw [if_neg hkeeps, hcovered, if_pos rfl, if_pos rfl,
            List.length_cons, Function.iterate_succ_apply]
          exact ih (dec32 tsegqeLen)
      · have hcovered : q.coveredTo stop = false :=
          decide_eq_false fun h => hbefore h.1
        rw [if_pos (Int.not_lt.mp hbefore), hcovered]
        simp only [Bool.false_eq_true, if_false, List.length_nil,
          Function.iterate_zero_apply, hbefore, List.map_cons, TsegQent.span,
          and_self]

/-- The entries behind which the packet would not be put. -/
def succeeding (flowData : TcpFlowData) (pkt : TcpPacket) : List TsegQent :=
  flowData.head.dropWhile fun q => !seqGt q.seq pkt.sequence

/-- How many bytes of the packet the preceding entry has. -/
def overlap (flowData : TcpFlowData) (pkt : TcpPacket) : Int :=
  match preceding flowData pkt with
  | none => 0
  | some p => max 0 (toInt (sub64 (add64 p.seq p.dataLen) pkt.sequence))

/-- Where the packet ends. -/
def TcpPacket.nxtSeq (pkt : TcpPacket) : Nat :=
  add64 pkt.sequence pkt.dataLength

/-- The packet is put into the queue, and the queue is not flushed for it. -/
structure TcpFlowData.Queues (disorderDepth : Nat) (flowData : TcpFlowData)
    (pkt : TcpPacket) : Prop where
  near : isTooFar flowData pkt = false
  left : overlap flowData pkt = 0 ∨ overlap flowData pkt < toInt pkt.dataLength
  noSyn : pkt.has thSyn = false
  room : (dec32^[((succeeding flowData pkt).takeWhile
    (TsegQent.coveredTo pkt.nxtSeq)).length] flowData.tsegqeLen + 1) %
      2 ^ 32 < disorderDepth

/-- No other entry is left in the queue of the packet. -/
def TcpFlowData.Alone (flowData : TcpFlowData) (pkt : TcpPacket) : Prop :=
  preceding flowData pkt = none ∧
    spansBehind pkt.nxtSeq (succeeding flowData pkt) = []

instance (flowData : TcpFlowData) (pkt : TcpPacket) :
    Decidable (flowData.Alone pkt) :=
  inferInstanceAs (Decidable (_ ∧ _))

theorem alone_of_empty {flowData : TcpFlowData} (hempty : flowData.head = [])
    (pkt : TcpPacket) : flowData.Alone pkt := by
  rw [TcpFlowData.Alone, preceding, succeeding, hempty]
  exact ⟨rfl, rfl⟩

section Overlap

variable {flowData : TcpFlowData} {pkt : TcpPacket}

theorem toInt_lt (n : Nat) : toInt n < 2 ^ 31 := by
  unfold toInt
  split <;> omega

variable (flowData pkt) in
theorem overlap_nonneg : 0 ≤ overlap flowData pkt := by
  rw [overlap]
  split
  · exact Int.le_refl 0
  · omega

/-- What is left of the packet starts behind the preceding entry and ends where
the packet ends. -/
theorem precedingOverlap_rest (hseq : pkt.sequence < 2 ^ 32)
    (h : overlap flowData pkt = 0 ∨
      overlap flowData pkt < toInt pkt.dataLength) :
    ∃ data dataLength, precedingOverlap (preceding flowData pkt) pkt.sequence
        pkt.data pkt.dataLength =
          .rest (pkt.sequence + (overlap flowData pkt).toNat) data
            dataLength ∧
      add64 (pkt.sequence + (overlap flowData pkt).toNat) dataLength =
        pkt.nxtSeq := by
  cases hp : preceding flowData pkt with
  | none =>
      have hover : overlap flowData pkt = 0 := by rw [overlap, hp]
      rw [hover]
      exact ⟨_, _, rfl, rfl⟩
  | some p =>
      have hover : overlap flowData pkt =
          max 0 (toInt (sub64 (add64 p.seq p.dataLen) pkt.sequence)) := by
        rw [overlap, hp]
      have hbound := toInt_lt (sub64 (add64 p.seq p.dataLen) pkt.sequence)
      rw [hover] at h ⊢
      rw [precedingOverlap]
      generalize toInt (sub64 (add64 p.seq p.dataLen) pkt.sequence) = i at *
      by_cases hpos : 0 < i
      · have hmax : max 0 i = i := by omega
        have hless : i < toInt pkt.dataLength := by
          rcases h with h | h <;> omega
        simp only [hmax, if_pos hpos, if_neg (Int.not_lt.mpr (Int.le_of_lt hless)),
          if_neg (Int.ne_of_lt hless)]
        rw [add64_eq (by omega)]
        refine ⟨_, _, rfl, ?_⟩
        unfold TcpPacket.nxtSeq add64 sub64
        omega
      · have hmax : max 0 i = 0 := by omega
        simp only [hmax, if_neg hpos, Int.toNat_zero, Nat.add_zero]
        exact ⟨_, _, rfl, rfl⟩

theorem precedingOverlap_not_rest
    (h : ¬ (overlap flowData pkt = 0 ∨
      overlap flowData pkt < toInt pkt.dataLength)) :
    precedingOverlap (preceding flowData pkt) pkt.sequence pkt.data
        pkt.dataLength = .duplicate ∨
      precedingOverlap (preceding flowData pkt) pkt.sequence pkt.data
        pkt.dataLength = .replace := by
  cases hp : preceding flowData pkt with
  | none =>
      have hover : overlap flowData pkt = 0 := by rw [overlap, hp]
      exact absurd (.inl hover) h
  | some p =>
      have hover : overlap flowData pkt =
          max 0 (toInt (sub64 (add64 p.seq p.dataLen) pkt.sequence)) := by
        rw [overlap, hp]
      rw [hover] at h
      rw [precedingOverlap]
      generalize toInt (sub64 (add64 p.seq p.dataLen) pkt.sequence) = i at *
      have hpos : 0 < i := by omega
      simp only [if_pos hpos]
      split
      · exact .inl rfl
      · rw [if_pos (by omega)]
        exact .inr rfl

/-- Some of the packet is left. -/
theorem seqGt_nxtSeq
    (h : overlap flowData pkt < toInt pkt.dataLength) :
    seqGt pkt.nxtSeq (pkt.sequence + (overlap flowData pkt).toNat) = true := by
  have hnonneg := overlap_nonneg flowData pkt
  generalize overlap flowData pkt = i at *
  rw [seqGt, decide_eq_true_eq]
  unfold toInt TcpPacket.nxtSeq add64 sub64 at *
  split at h <;> split <;> omega

end Overlap

section Placed

variable {disorderDepth : Nat} {flowData : TcpFlowData} {pkt : TcpPacket}
  {front back : List TsegQent} {sequence dataLength : Nat}
  {data : Nat → UInt8}

theorem placeSegment_queued_iff :
    (placeSegment disorderDepth flowData pkt front back sequence data
        dataLength).1 = .queued ↔
      pkt.has thSyn = false ∧
        (dec32^[(back.takeWhile (TsegQent.coveredTo
          (add64 sequence dataLength))).length] flowData.tsegqeLen + 1) %
          2 ^ 32 < disorderDepth := by
  have hcount :=
    (trimSucceeding_eq (add64 sequence dataLength) back flowData.tsegqeLen).2
  simp only [placeSegment, hcount]
  generalize (if _ ++ _ = [] then _ else flowData.rcvNxt) = rcvNxt
  cases pkt.has thSyn with
  | true => simp
  | false =>
      simp only [Bool.false_eq_true, if_false, true_and]
      split
      · exact iff_of_false (by simp) (Nat.not_lt.mpr ‹_›)
      · refine iff_of_true ?_ (Nat.not_le.mp ‹_›)
        split <;> rfl

/-- A queued packet is the first span of the walk. -/
theorem placeSegment_rcvNxt
    (hqueued : (placeSegment disorderDepth flowData pkt front back sequence data
      dataLength).1 = .queued) :
    (placeSegment disorderDepth flowData pkt front back sequence data
        dataLength).2.1.rcvNxt =
      if front = [] ∧ spansBehind (add64 sequence dataLength) back = [] then
        add64 sequence dataLength
      else plainWalk true ((sequence, add64 sequence dataLength) ::
        spansBehind (add64 sequence dataLength) back) flowData.rcvNxt := by
  obtain ⟨hsyn, hroom⟩ := placeSegment_queued_iff.mp hqueued
  obtain ⟨hspans, hcount⟩ :=
    trimSucceeding_eq (add64 sequence dataLength) back flowData.tsegqeLen
  rw [← hspans, plainWalk_cons, if_pos rfl]
  simp only [placeSegment, hsyn, Bool.false_eq_true, if_false, hcount,
    if_neg (Nat.not_le.mpr hroom), List.map_eq_nil_iff, List.append_eq_nil_iff,
    followRcvNxt_plainWalk]
  generalize (trimSucceeding (add64 sequence dataLength) back
    flowData.tsegqeLen).1 = cut
  by_cases halone : front = [] ∧ cut = []
  · obtain ⟨rfl, rfl⟩ := halone
    simp only [and_self, if_true]
    split
    · rw [ite_self]
      rfl
    · rfl
  · simp only [if_neg halone]
    split <;> rfl

theorem placeSegment_head_ne_nil
    (hqueued : (placeSegment disorderDepth flowData pkt front back sequence data
      dataLength).1 = .queued) :
    (placeSegment disorderDepth flowData pkt front back sequence data
      dataLength).2.1.head ≠ [] := by
  obtain ⟨hsyn, hroom⟩ := placeSegment_queued_iff.mp hqueued
  have hcount :=
    (trimSucceeding_eq (add64 sequence dataLength) back flowData.tsegqeLen).2
  simp only [placeSegment, hsyn, Bool.false_eq_true, if_false, hcount,
    if_neg (Nat.not_le.mpr hroom)]
  generalize (if _ ++ _ = [] then _ else flowData.rcvNxt) = rcvNxt
  split <;> simp

/-- A packet that is not queued leaves `rcv_nxt` of a queue that is not
empty. -/
theorem placeSegment_rcvNxt_kept
    (hother : (placeSegment disorderDepth flowData pkt front back sequence data
      dataLength).1 ≠ .queued)
    (hhead : (placeSegment disorderDepth flowData pkt front back sequence data
      dataLength).2.1.head ≠ []) :
    (placeSegment disorderDepth flowData pkt front back sequence data
      dataLength).2.1.rcvNxt = flowData.rcvNxt := by
  simp only [placeSegment] at hother hhead ⊢
  cases hsyn : pkt.has thSyn with
  | true =>
      simp only [hsyn, if_true] at hhead ⊢
      exact if_neg hhead
  | false =>
      simp only [hsyn, Bool.false_eq_true, if_false] at hother hhead ⊢
      generalize (if _ ++ _ = [] then _ else flowData.rcvNxt) = rcvNxt at *
      split at hother
      · rw [if_pos ‹_›] at hhead
        exact absurd rfl hhead
      · split at hother
        · exact absurd rfl hother
        · exact absurd rfl hother

end Placed

section Queued

variable {disorderDepth : Nat} {flowData : TcpFlowData} {pkt : TcpPacket}
  (hseq : pkt.sequence < 2 ^ 32)

/-- The queueing part, by the entries around the packet's place. -/
theorem queueSegment_eq :
    queueSegment disorderDepth flowData pkt =
      if isTooFar flowData pkt then (.tooFar, flowData, [])
      else
        match precedingOverlap (preceding flowData pkt) pkt.sequence pkt.data
          pkt.dataLength with
        | .duplicate => (.duplicate, flowData, [])
        | .replace =>
            (.replace, { flowData with
              head := (flowData.head.takeWhile fun q =>
                  !seqGt q.seq pkt.sequence).dropLast ++
                ((preceding flowData pkt).map fun p => { p with
                  seq := pkt.sequence % 2 ^ 32
                  ackNum := pkt.ackNum % 2 ^ 32
                  data := pkt.data
                  dataLen := pkt.dataLength }).toList ++
                succeeding flowData pkt }, [])
        | .rest sequence data dataLength =>
            placeSegment disorderDepth flowData pkt
              (flowData.head.takeWhile fun q => !seqGt q.seq pkt.sequence)
              (succeeding flowData pkt) sequence data dataLength := by
  rw [queueSegment, List.span_eq_takeWhile_dropWhile]
  rfl

include hseq

theorem queueSegment_queued_iff :
    (queueSegment disorderDepth flowData pkt).1 = .queued ↔
      flowData.Queues disorderDepth pkt := by
  rw [queueSegment_eq]
  by_cases hfar : isTooFar flowData pkt = true
  · rw [if_pos hfar]
    refine iff_of_false (by simp) fun h => ?_
    rw [h.near] at hfar
    cases hfar
  · rw [if_neg hfar]
    by_cases hleft : overlap flowData pkt = 0 ∨
        overlap flowData pkt < toInt pkt.dataLength
    · obtain ⟨data, dataLength, hrest, hend⟩ :=
        precedingOverlap_rest hseq hleft
      rw [hrest]
      simp only
      rw [placeSegment_queued_iff, hend]
      constructor
      · rintro ⟨hsyn, hroom⟩
        exact ⟨by simpa using hfar, hleft, hsyn, hroom⟩
      · intro h
        exact ⟨h.noSyn, h.room⟩
    · rcases precedingOverlap_not_rest hleft with hnone | hnone <;>
      · rw [hnone]
        exact iff_of_false (by simp) fun h => hleft h.left

theorem queueSegment_head_ne_nil (h : flowData.Queues disorderDepth pkt) :
    (queueSegment disorderDepth flowData pkt).2.1.head ≠ [] := by
  have hqueued := (queueSegment_queued_iff hseq).mpr h
  obtain ⟨data, dataLength, hrest, -⟩ := precedingOverlap_rest hseq h.left
  rw [queueSegment_eq, h.near, if_neg Bool.false_ne_true, hrest] at hqueued ⊢
  exact placeSegment_head_ne_nil hqueued

/-- Where a queued packet leaves `rcv_nxt`. -/
theorem queueSegment_rcvNxt (h : flowData.Queues disorderDepth pkt) :
    (queueSegment disorderDepth flowData pkt).2.1.rcvNxt =
      if flowData.Alone pkt then pkt.nxtSeq
      else plainWalk true
        ((pkt.sequence + (overlap flowData pkt).toNat, pkt.nxtSeq) ::
          spansBehind pkt.nxtSeq (succeeding flowData pkt))
        flowData.rcvNxt := by
  have hqueued := (queueSegment_queued_iff hseq).mpr h
  obtain ⟨data, dataLength, hrest, hend⟩ := precedingOverlap_rest hseq h.left
  rw [queueSegment_eq, h.near, if_neg Bool.false_ne_true, hrest] at hqueued ⊢
  simp only at hqueued ⊢
  rw [placeSegment_rcvNxt hqueued, hend]
  simp only [TcpFlowData.Alone, preceding, List.getLast?_eq_none_iff]

/-- A packet that is not queued leaves `rcv_nxt` of a queue that is not
empty. -/
theorem queueSegment_rcvNxt_kept (h : ¬ flowData.Queues disorderDepth pkt)
    (hhead : (queueSegment disorderDepth flowData pkt).2.1.head ≠ []) :
    (queueSegment disorderDepth flowData pkt).2.1.rcvNxt =
      flowData.rcvNxt := by
  have hother := mt (queueSegment_queued_iff hseq).mp h
  rw [queueSegment_eq] at hother hhead ⊢
  by_cases hfar : isTooFar flowData pkt = true
  · rw [if_pos hfar]
  · rw [if_neg hfar] at hother hhead ⊢
    by_cases hleft : overlap flowData pkt = 0 ∨
        overlap flowData pkt < toInt pkt.dataLength
    · obtain ⟨data, dataLength, hrest, -⟩ := precedingOverlap_rest hseq hleft
      rw [hrest] at hother hhead ⊢
      exact placeSegment_rcvNxt_kept hother hhead
    · rcases precedingOverlap_not_rest hleft with hnone | hnone
      · rw [hnone]
      · rw [hnone]

end Queued

end Forward

end Barley
