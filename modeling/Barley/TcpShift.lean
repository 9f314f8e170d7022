/-
Reassembly under a shift of the sequence space.  Differences that are
converted to `int` do not see a constant added to all numbers of a direction;
the plain comparisons of the code do.  Three of them decide how a call ends and
what it leaves and sends, up to `rcv_nxt`.
-/
import Barley.TcpQueue
import Mathlib.Data.List.Forall2

namespace Barley

section RelatedLists

variable {A B : Type} {R : A → B → Prop} {front : List A} {moved : List B}

/-- Related lists split at the same place when the tests agree. -/
theorem forall₂_takeWhile (p : A → Bool) (p' : B → Bool)
    (h : List.Forall₂ R front moved) (hp : ∀ a b, R a b → p a = p' b) :
    List.Forall₂ R (front.takeWhile p) (moved.takeWhile p') ∧
      List.Forall₂ R (front.dropWhile p) (moved.dropWhile p') := by
  induction h with
  | nil => exact ⟨.nil, .nil⟩
  | @cons a b rest rest' hab hrest ih =>
      rw [List.takeWhile_cons, List.takeWhile_cons, List.dropWhile_cons,
        List.dropWhile_cons, hp a b hab]
      cases p' b with
      | true => exact ⟨.cons hab ih.1, ih.2⟩
      | false => exact ⟨.nil, .cons hab hrest⟩

/-- Related lists also split at the same place when equally many elements pass
the tests. -/
theorem forall₂_takeWhile_of_length {p : A → Bool} {p' : B → Bool}
    (h : List.Forall₂ R front moved)
    (hlen : (front.takeWhile p).length = (moved.takeWhile p').length) :
    List.Forall₂ R (front.takeWhile p) (moved.takeWhile p') ∧
      List.Forall₂ R (front.dropWhile p) (moved.dropWhile p') := by
  have htake := List.forall₂_take (front.takeWhile p).length h
  have hdrop := List.forall₂_drop (front.takeWhile p).length h
  have hsplit : ∀ {C : Type} (test : C → Bool) (list : List C),
      list.take (list.takeWhile test).length = list.takeWhile test ∧
        list.drop (list.takeWhile test).length = list.dropWhile test := by
    intro C test list
    have hwhole := List.takeWhile_append_dropWhile (p := test) (l := list)
    generalize list.takeWhile test = first at hwhole
    generalize list.dropWhile test = last at hwhole
    subst hwhole
    simp
  rw [(hsplit p front).1] at htake
  rw [(hsplit p front).2] at hdrop
  rw [hlen, (hsplit p' moved).1] at htake
  rw [hlen, (hsplit p' moved).2] at hdrop
  exact ⟨htake, hdrop⟩

theorem forall₂_last (h : List.Forall₂ R front moved) :
    (front = [] ∧ moved = []) ∨ ∃ init last init' last',
      front = init ++ [last] ∧ moved = init' ++ [last'] ∧
        List.Forall₂ R init init' ∧ R last last' := by
  induction h with
  | nil => exact .inl ⟨rfl, rfl⟩
  | @cons a b rest rest' hab hrest ih =>
      rcases ih with ⟨rfl, rfl⟩ | ⟨init, last, init', last', rfl, rfl, hinit, hl⟩
      · exact .inr ⟨[], a, [], b, rfl, rfl, .nil, hab⟩
      · exact .inr ⟨a :: init, last, b :: init', last', rfl, rfl,
          .cons hab hinit, hl⟩

end RelatedLists

/-- `moved` is `n` plus `d` in the sequence space. -/
def ShiftedBy (d n moved : Nat) : Prop :=
  moved % 2 ^ 32 = (n + d) % 2 ^ 32

section Numbers

variable {d a a' b b' : Nat} (ha : ShiftedBy d a a') (hb : ShiftedBy d b b')

include ha

theorem ShiftedBy.mod : ShiftedBy d (a % 2 ^ 32) (a' % 2 ^ 32) := by
  unfold ShiftedBy at *
  omega

theorem ShiftedBy.add64 (n : Nat) :
    ShiftedBy d (add64 a n) (Barley.add64 a' n) := by
  unfold ShiftedBy Barley.add64 at *
  omega

theorem ShiftedBy.add_mod (n : Nat) :
    ShiftedBy d ((a + n) % 2 ^ 32) ((a' + n) % 2 ^ 32) := by
  unfold ShiftedBy at *
  omega

include hb

/-- A difference converted to `int` does not change. -/
theorem ShiftedBy.toInt_sub64 :
    toInt (sub64 a' b') = toInt (sub64 a b) := by
  have hmod : sub64 a' b' % 2 ^ 32 = sub64 a b % 2 ^ 32 := by
    unfold ShiftedBy at *
    unfold sub64
    omega
  unfold toInt
  rw [hmod]

theorem ShiftedBy.seqGt : seqGt a' b' = Barley.seqGt a b := by
  rw [Barley.seqGt, Barley.seqGt, ha.toInt_sub64 hb]

end Numbers

/-- An entry with its numbers shifted: its own direction's by `own`, the other
one's by `other`. -/
structure TsegQent.Shifted (own other : Nat) (q moved : TsegQent) : Prop where
  seq : ShiftedBy own q.seq moved.seq
  ackNum : ShiftedBy other q.ackNum moved.ackNum
  nxtSeq : ShiftedBy own q.nxtSeq moved.nxtSeq
  data : moved.data = q.data
  dataLen : moved.dataLen = q.dataLen
  direction : moved.direction = q.direction

/-- The same entries, up to the shift. -/
def QueueShifted (own other : Nat) : List TsegQent → List TsegQent → Prop :=
  List.Forall₂ (TsegQent.Shifted own other)

/-- The same way to end, the same queue with the same count and the same
segments sent, up to the shift. -/
structure StepShifted (own other : Nat)
    (step moved : ReassOutcome × TcpFlowData × List TsegQent) : Prop where
  outcome : moved.1 = step.1
  head : QueueShifted own other step.2.1.head moved.2.1.head
  tsegqeLen : moved.2.1.tsegqeLen = step.2.1.tsegqeLen
  sent : QueueShifted own other step.2.2 moved.2.2

/-- `rcv_nxt` is not compared. -/
theorem StepShifted.of {own other : Nat} (outcome : ReassOutcome)
    {head head' sent sent' : List TsegQent}
    (hhead : QueueShifted own other head head')
    (hsent : QueueShifted own other sent sent')
    {rcvNxt rcvNxt' tsegqeLen : Nat} {rev rev' : Bool} :
    StepShifted own other (outcome, ⟨rcvNxt, head, tsegqeLen, rev⟩, sent)
      (outcome, ⟨rcvNxt', head', tsegqeLen, rev'⟩, sent') :=
  ⟨rfl, hhead, rfl, hsent⟩

section Queue

variable {own other : Nat} {disorderDepth : Nat}
  {flowData movedFlow : TcpFlowData} {pkt movedPkt : TcpPacket}

theorem trimSucceeding_shifted {stop stop' : Nat}
    (hstop : ShiftedBy own stop stop') {back back' : List TsegQent}
    (hback : QueueShifted own other back back') (tsegqeLen : Nat) :
    QueueShifted own other (trimSucceeding stop back tsegqeLen).1
        (trimSucceeding stop' back' tsegqeLen).1 ∧
      (trimSucceeding stop' back' tsegqeLen).2 =
        (trimSucceeding stop back tsegqeLen).2 := by
  induction hback generalizing tsegqeLen with
  | nil => exact ⟨.nil, rfl⟩
  | @cons q q' rest rest' hq hrest ih =>
      simp only [trimSucceeding, hstop.toInt_sub64 hq.seq, hq.dataLen]
      split
      · exact ⟨.cons hq hrest, rfl⟩
      · split
        · refine ⟨.cons ⟨hq.seq.add_mod _, hq.ackNum, hq.nxtSeq, ?_, rfl,
            hq.direction⟩ hrest, rfl⟩
          rw [hq.data]
        · exact ih (dec32 tsegqeLen)

/-- The same case of an overlap, with the rest shifted. -/
inductive Overlap.Shifted (own : Nat) : Overlap → Overlap → Prop
  | duplicate : Overlap.Shifted own .duplicate .duplicate
  | replace : Overlap.Shifted own .replace .replace
  | rest {sequence sequence' : Nat} (h : ShiftedBy own sequence sequence')
      (data : Nat → UInt8) (dataLength : Nat) :
      Overlap.Shifted own (.rest sequence data dataLength)
        (.rest sequence' data dataLength)

theorem precedingOverlap_shifted {p p' : TsegQent}
    (hp : p.Shifted own other p') {sequence sequence' : Nat}
    (hseq : ShiftedBy own sequence sequence') (data : Nat → UInt8)
    (dataLength : Nat) :
    Overlap.Shifted own (precedingOverlap (some p) sequence data dataLength)
      (precedingOverlap (some p') sequence' data dataLength) := by
  simp only [precedingOverlap, hp.dataLen,
    (hp.seq.add64 p.dataLen).toInt_sub64 hseq]
  split
  · split
    · exact .duplicate
    · split
      · exact .replace
      · exact .rest (hseq.add64 _) _ _
  · exact .rest hseq _ _

/-- The packet with its numbers shifted. -/
structure TcpPacket.Shifted (own other : Nat) (pkt moved : TcpPacket) :
    Prop where
  sequence : ShiftedBy own pkt.sequence moved.sequence
  ackNum : ShiftedBy other pkt.ackNum moved.ackNum
  data : moved.data = pkt.data
  dataLength : moved.dataLength = pkt.dataLength
  thFlags : moved.thFlags = pkt.thFlags
  direction : moved.direction = pkt.direction
  allocOk : moved.allocOk = pkt.allocOk

theorem TcpPacket.Shifted.has (hpkt : pkt.Shifted own other movedPkt)
    (flags : Nat) : movedPkt.has flags = pkt.has flags := by
  rw [TcpPacket.has, TcpPacket.has, hpkt.thFlags]

theorem TcpPacket.Shifted.entry (hpkt : pkt.Shifted own other movedPkt)
    {sequence sequence' : Nat} (hseq : ShiftedBy own sequence sequence')
    (data : Nat → UInt8) (dataLength : Nat) {nxtSeq nxtSeq' : Nat}
    (hnxt : ShiftedBy own nxtSeq nxtSeq') :
    (pkt.entry sequence data dataLength nxtSeq).Shifted own other
      (movedPkt.entry sequence' data dataLength nxtSeq') :=
  ⟨hseq.mod, hpkt.ackNum.mod, hnxt, rfl, rfl, hpkt.direction⟩

theorem placeSegment_shifted (hpkt : pkt.Shifted own other movedPkt)
    (hlen : movedFlow.tsegqeLen = flowData.tsegqeLen)
    {front front' back back' : List TsegQent}
    (hfront : QueueShifted own other front front')
    (hback : QueueShifted own other back back') {sequence sequence' : Nat}
    (hseq : ShiftedBy own sequence sequence') (data : Nat → UInt8)
    (dataLength : Nat) :
    StepShifted own other
      (placeSegment disorderDepth flowData pkt front back sequence data
        dataLength)
      (placeSegment disorderDepth movedFlow movedPkt front' back' sequence'
        data dataLength) := by
  obtain ⟨htrim, hcount⟩ := trimSucceeding_shifted (hseq.add64 dataLength)
    hback flowData.tsegqeLen
  simp only [placeSegment, hlen, hpkt.has, hcount]
  generalize (trimSucceeding (add64 sequence dataLength) back
    flowData.tsegqeLen).1 = cut at htrim ⊢
  generalize (trimSucceeding (add64 sequence' dataLength) back'
    flowData.tsegqeLen).1 = cut' at htrim ⊢
  cases hsyn : pkt.has thSyn with
  | true =>
      simp only [if_true]
      exact .of .syn (List.rel_append hfront htrim) .nil
  | false =>
      simp only [Bool.false_eq_true, if_false]
      have hqueue := List.rel_append hfront (List.Forall₂.cons
        (hpkt.entry hseq data dataLength (hseq.add64 dataLength)) htrim)
      -- the test of `rcv_nxt` only decides on the next `rcv_nxt`
      generalize (if front ++ cut = [] then add64 sequence dataLength
        else flowData.rcvNxt) = rcvNxt
      generalize (if front' ++ cut' = [] then add64 sequence' dataLength
        else movedFlow.rcvNxt) = rcvNxt'
      split
      · exact .of .flush .nil hqueue
      · by_cases hnext : sequence = rcvNxt
        · rw [if_pos hnext]
          by_cases hnext' : sequence' = rcvNxt'
          · rw [if_pos hnext']
            exact .of .queued hqueue .nil
          · rw [if_neg hnext']
            exact .of .queued hqueue .nil
        · rw [if_neg hnext]
          by_cases hnext' : sequence' = rcvNxt'
          · rw [if_pos hnext']
            exact .of .queued hqueue .nil
          · rw [if_neg hnext']
            exact .of .queued hqueue .nil

theorem queueSegment_shifted (disorderDepth : Nat)
    (hpkt : pkt.Shifted own other movedPkt)
    (hlen : movedFlow.tsegqeLen = flowData.tsegqeLen)
    (hhead : QueueShifted own other flowData.head movedFlow.head)
    (hfar : isTooFar movedFlow movedPkt = isTooFar flowData pkt) :
    StepShifted own other (queueSegment disorderDepth flowData pkt)
      (queueSegment disorderDepth movedFlow movedPkt) := by
  obtain ⟨hfront, hback⟩ := forall₂_takeWhile
    (fun q => !seqGt q.seq pkt.sequence)
    (fun q => !seqGt q.seq movedPkt.sequence) hhead
    fun q q' hq => by rw [hq.seq.seqGt hpkt.sequence]
  simp only [isTooFar, preceding] at hfar
  simp only [queueSegment, List.span_eq_takeWhile_dropWhile, hfar]
  split
  · exact ⟨rfl, hhead, hlen, .nil⟩
  · generalize List.takeWhile _ flowData.head = front at hfront
    generalize List.dropWhile _ flowData.head = back at hback
    generalize List.takeWhile _ movedFlow.head = front' at hfront
    generalize List.dropWhile _ movedFlow.head = back' at hback
    rw [hpkt.data, hpkt.dataLength]
    rcases forall₂_last hfront with ⟨rfl, rfl⟩ |
      ⟨init, p, init', p', rfl, rfl, hinit, hp⟩
    · exact placeSegment_shifted hpkt hlen hfront hback hpkt.sequence _ _
    · simp only [List.getLast?_concat]
      have hover := precedingOverlap_shifted hp hpkt.sequence pkt.data
        pkt.dataLength
      generalize precedingOverlap (some p) _ _ _ = left at hover
      generalize precedingOverlap (some p') _ _ _ = right at hover
      cases hover with
      | duplicate => exact ⟨rfl, hhead, hlen, .nil⟩
      | replace =>
          refine ⟨rfl, ?_, hlen, .nil⟩
          simp only [List.dropLast_concat, Option.map_some, Option.toList_some]
          refine List.rel_append (List.rel_append hinit (.cons ?_ .nil)) hback
          exact ⟨hpkt.sequence.mod, hpkt.ackNum.mod, hp.nxtSeq, rfl, rfl,
            hp.direction⟩
      | rest hseq data dataLength =>
          exact placeSegment_shifted hpkt hlen hfront hback hseq _ _

end Queue

/-- How many entries at the front of the queue an acknowledgement sends. -/
def ackedCount (flowData : TcpFlowData) : Nat :=
  (flowData.head.takeWhile fun q => q.nxtSeq ≤ flowData.rcvNxt).length

/-- A flow with its numbers shifted. -/
structure TcpFlowData.Shifted (own other : Nat) (flowData moved : TcpFlowData) :
    Prop where
  rcvNxt : ShiftedBy own flowData.rcvNxt moved.rcvNxt
  head : QueueShifted own other flowData.head moved.head
  tsegqeLen : moved.tsegqeLen = flowData.tsegqeLen
  rev : moved.rev = flowData.rev

/-- Draining counts down once for every entry that it sends. -/
theorem drainAcked_iterate (queue : List TsegQent) (flowData : TcpFlowData) :
    (drainAcked queue flowData).1.tsegqeLen = dec32^[(queue.takeWhile
      fun q => q.nxtSeq ≤ flowData.rcvNxt).length] flowData.tsegqeLen := by
  induction queue generalizing flowData with
  | nil =>
      rw [drainAcked, List.takeWhile_nil, List.length_nil,
        Function.iterate_zero_apply]
  | cons q rest ih =>
      have hlen : (sendPacket flowData).tsegqeLen = dec32 flowData.tsegqeLen :=
        rfl
      have hrcv : (sendPacket flowData).rcvNxt = flowData.rcvNxt := rfl
      rw [drainAcked, List.takeWhile_cons]
      by_cases hbelow : q.nxtSeq ≤ flowData.rcvNxt
      · rw [if_pos hbelow, if_pos (decide_eq_true hbelow), List.length_cons,
          Function.iterate_succ_apply, ← hlen, ← hrcv]
        exact ih (sendPacket flowData)
      · rw [if_neg hbelow, decide_eq_false hbelow, if_neg Bool.false_ne_true,
          List.length_nil, Function.iterate_zero_apply]

/-- The count after an acknowledgement. -/
theorem sendReverseTcpflow_tsegqeLen (flowData : TcpFlowData) (ackNum : Nat) :
    (sendReverseTcpflow flowData ackNum).1.tsegqeLen =
      if (sendReverseTcpflow flowData ackNum).1.head = [] then 0
      else dec32^[ackedCount flowData] flowData.tsegqeLen := by
  have hcount := drainAcked_iterate flowData.head flowData
  rw [sendReverseTcpflow]
  split
  · by_cases hempty : (drainAcked flowData.head flowData).1.head = []
    · simp only [hempty, if_true]
    · simp only [hempty, if_false]
      exact hcount
  · exact (if_pos rfl).symm

theorem sendReverseTcpflow_shifted {own other : Nat}
    {flowData moved : TcpFlowData} (hflow : flowData.Shifted own other moved)
    {ackNum ackNum' : Nat} (hack : ShiftedBy own ackNum ackNum')
    (hcount : toInt (sub64 ackNum flowData.rcvNxt) = 0 →
      ackedCount moved = ackedCount flowData) :
    QueueShifted own other (sendReverseTcpflow flowData ackNum).1.head
        (sendReverseTcpflow moved ackNum').1.head ∧
      (sendReverseTcpflow moved ackNum').1.tsegqeLen =
        (sendReverseTcpflow flowData ackNum).1.tsegqeLen ∧
      QueueShifted own other (sendReverseTcpflow flowData ackNum).2
        (sendReverseTcpflow moved ackNum').2 := by
  obtain ⟨hhead, hsent⟩ := sendReverseTcpflow_eq flowData ackNum
  obtain ⟨hhead', hsent'⟩ := sendReverseTcpflow_eq moved ackNum'
  rw [sendReverseTcpflow_tsegqeLen, sendReverseTcpflow_tsegqeLen, hhead, hsent,
    hhead', hsent', hack.toInt_sub64 hflow.rcvNxt]
  by_cases hzero : toInt (sub64 ackNum flowData.rcvNxt) = 0
  · simp only [if_pos hzero]
    obtain ⟨htake, hdrop⟩ :=
      forall₂_takeWhile_of_length hflow.head (hcount hzero).symm
    refine ⟨hdrop, ?_, htake⟩
    rw [hcount hzero, hflow.tsegqeLen]
    have hempty := hdrop.length_eq
    simp only [← List.length_eq_zero_iff, hempty]
  · simp only [if_neg hzero, if_true]
    exact ⟨.nil, trivial, hflow.head⟩

@[simp] theorem FlowDirection.other_other (direction : FlowDirection) :
    direction.other.other = direction := by
  cases direction <;> rfl

/-- A session of which the numbers of each direction are shifted by `amount`
of it. -/
def MppSsn.Shifted (amount : FlowDirection → Nat) (ssn moved : MppSsn) : Prop :=
  ∀ direction, (ssn.flow direction).Shifted (amount direction)
    (amount direction.other) (moved.flow direction)

/-- The same way to end, the same queues with the same counts and the same
segments sent, up to the shift. -/
structure ReassResult.QueuesShifted (amount : FlowDirection → Nat)
    (direction : FlowDirection) (result moved : ReassResult) : Prop where
  outcome : moved.outcome = result.outcome
  queue : ∀ of, QueueShifted (amount of) (amount of.other)
    (result.ssn.flow of).head (moved.ssn.flow of).head
  tsegqeLen : ∀ of,
    (moved.ssn.flow of).tsegqeLen = (result.ssn.flow of).tsegqeLen
  revSent : QueueShifted (amount direction.other) (amount direction)
    result.revSent moved.revSent
  fwdSent : QueueShifted (amount direction) (amount direction.other)
    result.fwdSent moved.fwdSent

/-- What is left of two sessions, up to the shift and up to `rcv_nxt`. -/
structure MppSsn.QueuesShifted (amount : FlowDirection → Nat)
    (ssn moved : MppSsn) : Prop where
  queue : ∀ of, QueueShifted (amount of) (amount of.other)
    (ssn.flow of).head (moved.flow of).head
  tsegqeLen : ∀ of, (moved.flow of).tsegqeLen = (ssn.flow of).tsegqeLen

theorem ReassResult.QueuesShifted.of {amount : FlowDirection → Nat}
    {direction : FlowDirection} (outcome : ReassOutcome)
    {left right : MppSsn} {revSent revSent' fwdSent fwdSent' : List TsegQent}
    (hqueue : left.QueuesShifted amount right)
    (hrev : QueueShifted (amount direction.other) (amount direction)
      revSent revSent')
    (hfwd : QueueShifted (amount direction) (amount direction.other)
      fwdSent fwdSent') :
    ReassResult.QueuesShifted amount direction
      ⟨outcome, left, revSent, fwdSent⟩
      ⟨outcome, right, revSent', fwdSent'⟩ :=
  ⟨rfl, hqueue.queue, hqueue.tsegqeLen, hrev, hfwd⟩

/-- The call does the same, up to the shift: it ends in the same way, leaves
the same queues and sends the same segments.  `rcv_nxt` is compared where there
is a queue that it belongs to: the code never reads that of an empty queue, and
a flush sets it to 0. -/
structure ReassResult.Shifted (amount : FlowDirection → Nat)
    (direction : FlowDirection) (result moved : ReassResult) : Prop
    extends ReassResult.QueuesShifted amount direction result moved where
  rcvNxt : ∀ of, (result.ssn.flow of).head ≠ [] →
    ShiftedBy (amount of) (result.ssn.flow of).rcvNxt
      (moved.ssn.flow of).rcvNxt

/-- The comparisons of the code that do not go through `int` and are reached
give the same answers. -/
structure PlainAgree (disorderDepth : Nat) (ssn : MppSsn) (pkt : TcpPacket)
    (moved : MppSsn) (movedPkt : TcpPacket) : Prop where
  first : movedPkt.sequence < moved.ssnSeq pkt.direction ↔
    pkt.sequence < ssn.ssnSeq pkt.direction
  acked : ssn.ssnSeq pkt.direction ≤ pkt.sequence →
    (ssn.flow pkt.direction).rev = true →
    toInt (sub64 pkt.ackNum (ssn.flow pkt.direction.other).rcvNxt) = 0 →
    ackedCount (moved.flow pkt.direction.other) =
      ackedCount (ssn.flow pkt.direction.other)
  near : ssn.ssnSeq pkt.direction ≤ pkt.sequence →
    pkt.has (thFin ||| thRst) = false →
    (ssn.flow pkt.direction).tsegqeLen < disorderDepth →
    pkt.allocOk = true →
    isTooFar (moved.flow pkt.direction) movedPkt =
      isTooFar (ssn.flow pkt.direction) pkt

section Call

variable {amount : FlowDirection → Nat} {disorderDepth : Nat}
  {ssn moved : MppSsn} {pkt movedPkt : TcpPacket}

theorem ackReverse_shifted (hssn : ssn.Shifted amount moved)
    (direction : FlowDirection) {ackNum ackNum' : Nat}
    (hack : ShiftedBy (amount direction.other) ackNum ackNum')
    (hcount : (ssn.flow direction).rev = true →
      toInt (sub64 ackNum (ssn.flow direction.other).rcvNxt) = 0 →
      ackedCount (moved.flow direction.other) =
        ackedCount (ssn.flow direction.other)) :
    QueueShifted (amount direction.other) (amount direction)
        (ackReverse (ssn.flow direction) (ssn.flow direction.other)
          ackNum).1.head
        (ackReverse (moved.flow direction) (moved.flow direction.other)
          ackNum').1.head ∧
      (ackReverse (moved.flow direction) (moved.flow direction.other)
          ackNum').1.tsegqeLen =
        (ackReverse (ssn.flow direction) (ssn.flow direction.other)
          ackNum).1.tsegqeLen ∧
      QueueShifted (amount direction.other) (amount direction)
        (ackReverse (ssn.flow direction) (ssn.flow direction.other) ackNum).2
        (ackReverse (moved.flow direction) (moved.flow direction.other)
          ackNum').2 := by
  have hrev := hssn direction.other
  rw [FlowDirection.other_other] at hrev
  have hempty : (moved.flow direction.other).head ≠ [] ↔
      (ssn.flow direction.other).head ≠ [] := by
    have hlen := hrev.head.length_eq
    rw [← List.length_pos_iff, ← List.length_pos_iff, hlen]
  simp only [ackReverse, (hssn direction).rev, hempty]
  split
  · exact sendReverseTcpflow_shifted hrev hack (hcount (And.left ‹_›))
  · exact ⟨hrev.head, hrev.tsegqeLen, .nil⟩

theorem ackReverse_sent_length (fwd rev : TcpFlowData) {ackNum : Nat}
    (hrev : fwd.rev = true) (hack : toInt (sub64 ackNum rev.rcvNxt) = 0) :
    (ackReverse fwd rev ackNum).2.length = ackedCount rev := by
  by_cases hnil : rev.head = []
  · rw [ackReverse, if_neg fun h => h.2 hnil, ackedCount, hnil]
    rfl
  · rw [ackReverse, if_pos ⟨hrev, hnil⟩, (sendReverseTcpflow_eq rev ackNum).2,
      if_pos hack]
    rfl

theorem placeSegment_outcome (flowData : TcpFlowData) (pkt : TcpPacket)
    (front back : List TsegQent) (sequence : Nat) (data : Nat → UInt8)
    (dataLength : Nat) :
    (placeSegment disorderDepth flowData pkt front back sequence data
        dataLength).1 ≠ .beforeFirst ∧
      (placeSegment disorderDepth flowData pkt front back sequence data
        dataLength).1 ≠ .tooFar := by
  simp only [placeSegment]
  generalize (if _ ++ _ = [] then _ else flowData.rcvNxt) = rcvNxt
  split
  · simp
  · split
    · simp
    · split <;> simp

theorem queueSegment_outcome (flowData : TcpFlowData) (pkt : TcpPacket) :
    (queueSegment disorderDepth flowData pkt).1 ≠ .beforeFirst ∧
      ((queueSegment disorderDepth flowData pkt).1 = .tooFar ↔
        isTooFar flowData pkt = true) := by
  simp only [queueSegment, List.span_eq_takeWhile_dropWhile]
  by_cases hfar : isTooFar flowData pkt = true
  · have hfar' := hfar
    rw [isTooFar, preceding] at hfar'
    simp [hfar, hfar']
  · have hfar' := hfar
    rw [isTooFar, preceding] at hfar'
    rw [if_neg hfar']
    split
    · simp [hfar]
    · simp [hfar]
    · obtain ⟨hfirst, hplaced⟩ := placeSegment_outcome flowData pkt _ _ _ _ _
      exact ⟨hfirst, iff_of_false hplaced hfar⟩

/-- The calls that stop at the first check. -/
theorem reassTcp_beforeFirst (disorderDepth : Nat) (ssn : MppSsn)
    (pkt : TcpPacket) :
    (reassTcp disorderDepth ssn pkt).outcome = .beforeFirst ↔
      pkt.sequence < ssn.ssnSeq pkt.direction := by
  simp only [reassTcp]
  split
  · simp [*]
  · split
    · simp [*]
    · split
      · simp [*]
      · split
        · simp [*]
        · refine iff_of_false ?_ ‹_›
          exact (queueSegment_outcome (ssn.flow pkt.direction) pkt).1

theorem reassTcp_revSent
    (hfirst : ¬ pkt.sequence < ssn.ssnSeq pkt.direction) :
    (reassTcp disorderDepth ssn pkt).revSent =
      (ackReverse (ssn.flow pkt.direction) (ssn.flow pkt.direction.other)
        pkt.ackNum).2 := by
  simp only [reassTcp, if_neg hfirst]
  split
  · rfl
  · split
    · rfl
    · split <;> rfl

theorem reassTcp_tooFar (hfirst : ¬ pkt.sequence < ssn.ssnSeq pkt.direction)
    (hpurge : pkt.has (thFin ||| thRst) = false)
    (hroom : (ssn.flow pkt.direction).tsegqeLen < disorderDepth)
    (halloc : pkt.allocOk = true) :
    (reassTcp disorderDepth ssn pkt).outcome = .tooFar ↔
      isTooFar (ssn.flow pkt.direction) pkt = true := by
  simp only [reassTcp, if_neg hfirst, hpurge, if_neg (Nat.not_le.mpr hroom),
    halloc, Bool.not_true, Bool.false_eq_true, if_false]
  exact (queueSegment_outcome (ssn.flow pkt.direction) pkt).2

/-- Both queues, from the one of the packet and the other one. -/
theorem queuesShifted_of (direction : FlowDirection) {left right : MppSsn}
    (hfwd : QueueShifted (amount direction) (amount direction.other)
      (left.flow direction).head (right.flow direction).head)
    (hfwdLen : (right.flow direction).tsegqeLen =
      (left.flow direction).tsegqeLen)
    (hrev : QueueShifted (amount direction.other) (amount direction)
      (left.flow direction.other).head (right.flow direction.other).head)
    (hrevLen : (right.flow direction.other).tsegqeLen =
      (left.flow direction.other).tsegqeLen) :
    left.QueuesShifted amount right := by
  constructor
  all_goals
    intro of
    rcases FlowDirection.eq_or_other direction of with rfl | rfl
  · exact hfwd
  · rw [FlowDirection.other_other]
    exact hrev
  · exact hfwdLen
  · exact hrevLen

section Simulation

variable (hssn : ssn.Shifted amount moved)
  (hpkt : pkt.Shifted (amount pkt.direction) (amount pkt.direction.other)
    movedPkt)

include hssn hpkt

/-- If the plain comparisons agree, the whole call does, up to `rcv_nxt`. -/
theorem reassTcp_queuesShifted
    (hagree : PlainAgree disorderDepth ssn pkt moved movedPkt) :
    (reassTcp disorderDepth ssn pkt).QueuesShifted amount pkt.direction
      (reassTcp disorderDepth moved movedPkt) := by
  have hfwd := hssn pkt.direction
  have hother := FlowDirection.other_ne pkt.direction
  simp only [reassTcp, hpkt.direction, hpkt.has, hpkt.allocOk,
    hfwd.tsegqeLen, hagree.first]
  by_cases hfirst : pkt.sequence < ssn.ssnSeq pkt.direction
  · simp only [if_pos hfirst]
    exact .of .beforeFirst ⟨fun of => (hssn of).head,
      fun of => (hssn of).tsegqeLen⟩ .nil .nil
  · simp only [if_neg hfirst]
    have hreached := Nat.not_lt.mp hfirst
    obtain ⟨hrev, hrevLen, hsent⟩ := ackReverse_shifted hssn pkt.direction hpkt.ackNum
      (hagree.acked hreached)
    have hkept : (ssn.setFlow pkt.direction.other (ackReverse
          (ssn.flow pkt.direction) (ssn.flow pkt.direction.other)
          pkt.ackNum).1).QueuesShifted amount
        (moved.setFlow pkt.direction.other (ackReverse
          (moved.flow pkt.direction) (moved.flow pkt.direction.other)
          movedPkt.ackNum).1) := by
      refine queuesShifted_of pkt.direction ?_ ?_ ?_ ?_
      · rw [MppSsn.flow_setFlow_of_ne _ hother.symm,
          MppSsn.flow_setFlow_of_ne _ hother.symm]
        exact hfwd.head
      · rw [MppSsn.flow_setFlow_of_ne _ hother.symm,
          MppSsn.flow_setFlow_of_ne _ hother.symm]
        exact hfwd.tsegqeLen
      · rw [MppSsn.flow_setFlow_self, MppSsn.flow_setFlow_self]
        exact hrev
      · rw [MppSsn.flow_setFlow_self, MppSsn.flow_setFlow_self]
        exact hrevLen
    generalize ackReverse (ssn.flow pkt.direction) _ _ = acked at *
    generalize ackReverse (moved.flow pkt.direction) _ _ = acked' at *
    have hboth : ∀ {fwd fwd' : TcpFlowData}, QueueShifted
        (amount pkt.direction) (amount pkt.direction.other) fwd.head
        fwd'.head → fwd'.tsegqeLen = fwd.tsegqeLen →
        ((ssn.setFlow pkt.direction.other acked.1).setFlow pkt.direction
          fwd).QueuesShifted amount
        ((moved.setFlow pkt.direction.other acked'.1).setFlow pkt.direction
          fwd') := by
      intro fwd fwd' hqueue hqueueLen
      refine queuesShifted_of pkt.direction ?_ ?_ ?_ ?_
      · rw [MppSsn.flow_setFlow_self, MppSsn.flow_setFlow_self]
        exact hqueue
      · rw [MppSsn.flow_setFlow_self, MppSsn.flow_setFlow_self]
        exact hqueueLen
      · rw [MppSsn.flow_setFlow_of_ne _ hother,
          MppSsn.flow_setFlow_of_ne _ hother, MppSsn.flow_setFlow_self,
          MppSsn.flow_setFlow_self]
        exact hrev
      · rw [MppSsn.flow_setFlow_of_ne _ hother,
          MppSsn.flow_setFlow_of_ne _ hother, MppSsn.flow_setFlow_self,
          MppSsn.flow_setFlow_self]
        exact hrevLen
    cases hpurge : pkt.has (thFin ||| thRst) with
    | true =>
        simp only [if_true]
        exact .of .purge (hboth .nil rfl) hsent hfwd.head
    | false =>
        simp only [Bool.false_eq_true, if_false]
        split
        · exact .of .overflow hkept hsent .nil
        · cases halloc : pkt.allocOk with
          | false =>
              simp only [Bool.not_false, if_true]
              exact .of .memFailed hkept hsent .nil
          | true =>
              simp only [Bool.not_true, Bool.false_eq_true, if_false]
              have hstep := queueSegment_shifted disorderDepth hpkt
                hfwd.tsegqeLen hfwd.head
                (hagree.near hreached hpurge (Nat.not_le.mp ‹_›) halloc)
              have hleft := hboth hstep.head hstep.tsegqeLen
              exact ⟨hstep.outcome, hleft.queue, hleft.tsegqeLen, hsent,
                hstep.sent⟩

/-- Up to `rcv_nxt`, the plain comparisons are all that can tell two shifted
calls apart. -/
theorem reassTcp_queuesShifted_iff :
    (reassTcp disorderDepth ssn pkt).QueuesShifted amount pkt.direction
        (reassTcp disorderDepth moved movedPkt) ↔
      PlainAgree disorderDepth ssn pkt moved movedPkt := by
  refine ⟨fun hshifted => ?_, reassTcp_queuesShifted hssn hpkt⟩
  have hfirst : movedPkt.sequence < moved.ssnSeq pkt.direction ↔
      pkt.sequence < ssn.ssnSeq pkt.direction := by
    rw [← reassTcp_beforeFirst disorderDepth, ← hshifted.outcome,
      reassTcp_beforeFirst, hpkt.direction]
  refine ⟨hfirst, fun hreached hrev hack => ?_,
    fun hreached hpurge hroom halloc => ?_⟩
  · have hlen := hshifted.revSent.length_eq
    rw [reassTcp_revSent (Nat.not_lt.mpr hreached), reassTcp_revSent
      (by rw [hpkt.direction, hfirst]; exact Nat.not_lt.mpr hreached)] at hlen
    have hother := hssn pkt.direction.other
    have hack' : toInt (sub64 movedPkt.ackNum
        (moved.flow pkt.direction.other).rcvNxt) = 0 := by
      rw [hpkt.ackNum.toInt_sub64 hother.rcvNxt]
      exact hack
    have hrev' : (moved.flow pkt.direction).rev = true := by
      rw [(hssn pkt.direction).rev]
      exact hrev
    rw [hpkt.direction, ackReverse_sent_length _ _ hrev hack,
      ackReverse_sent_length _ _ hrev' hack'] at hlen
    exact hlen.symm
  · have hfar := reassTcp_tooFar (Nat.not_lt.mpr hreached) hpurge hroom halloc
    have hfar' : (reassTcp disorderDepth moved movedPkt).outcome = .tooFar ↔
        isTooFar (moved.flow movedPkt.direction) movedPkt = true := by
      refine reassTcp_tooFar ?_ ?_ ?_ ?_
      · rw [hpkt.direction, hfirst]
        exact Nat.not_lt.mpr hreached
      · rw [hpkt.has]
        exact hpurge
      · rw [hpkt.direction, (hssn pkt.direction).tsegqeLen]
        exact hroom
      · rw [hpkt.allocOk]
        exact halloc
    rw [hshifted.outcome, hpkt.direction] at hfar'
    exact Bool.eq_iff_iff.mpr (hfar'.symm.trans hfar)

end Simulation

end Call

end Barley
