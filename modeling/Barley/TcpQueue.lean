/-
The queues of a session over whole runs.  One call either leaves a queue as it
is, drains a part of its front, or puts the packet into its place; the queues
stay ordered and short, and what is sent is sent in order.
-/
import Barley.TcpStep

namespace Barley

/-- The queue of a flow is ordered within the window and without empty entries,
and its counted length is right and below the limit. -/
structure TcpFlowData.Sound (flowData : TcpFlowData) (window : SeqWindow)
    (disorderDepth : Nat) : Prop where
  queue : window.Queue flowData.head
  proper : Segments.Proper TsegQent.seq TsegQent.stop flowData.head
  counted : flowData.tsegqeLen = flowData.head.length
  short : flowData.head.length < disorderDepth

/-- Segments handed over in increasing order and without overlap. -/
def SentInOrder (sent : List TsegQent) : Prop :=
  sent.Pairwise fun first second =>
    first.seq < second.seq ∧ first.seq + first.dataLen ≤ second.seq

theorem SeqWindow.Queue.sentInOrder {window : SeqWindow}
    {sent : List TsegQent} (h : window.Queue sent)
    (hproper : Segments.Proper TsegQent.seq TsegQent.stop sent) :
    SentInOrder sent :=
  (h.ordered.starts hproper).and h.ordered

section Invariant

variable {window : SeqWindow} {disorderDepth : Nat} {flowData : TcpFlowData}
  {pkt : TcpPacket}

/-- An empty queue is sound. -/
theorem TcpFlowData.Sound.of_empty (hhead : flowData.head = [])
    (hlen : flowData.tsegqeLen = 0) (hpos : 0 < disorderDepth) :
    flowData.Sound window disorderDepth := by
  refine ⟨⟨hhead ▸ List.Pairwise.nil, by simp [hhead]⟩,
    by simp [Segments.Proper, hhead], ?_, ?_⟩
  · rw [hlen, hhead, List.length_nil]
  · rw [hhead, List.length_nil]
    exact hpos

/-- What is left of the queue around the packet stays ordered. -/
theorem Placement.syn_queue {queue front back : List TsegQent}
    {sequence dataLength : Nat} {data : Nat → UInt8}
    (hplace : Placement queue pkt front back sequence data dataLength)
    (hqueue : window.Queue queue) (hadmits : window.Admits pkt) :
    window.Queue (front ++ cutBefore pkt.stop back) := by
  have hlo := hadmits.lo
  have hstart := hplace.start
  have hstop := hplace.stop
  rw [hplace.split] at hqueue
  obtain ⟨hfront, hback, hacross⟩ := List.pairwise_append.mp hqueue.ordered
  obtain ⟨hcut, hcutSeq⟩ := cutBefore_queue
    (by omega : window.lo ≤ pkt.stop)
    (hqueue.sublist (List.sublist_append_right front back))
  constructor
  · refine List.pairwise_append.mpr ⟨hfront, hcut.ordered, ?_⟩
    intro first hfirst second hsecond
    have hfree := hplace.free first hfirst
    have hafter := hcutSeq second hsecond
    omega
  · intro q hq
    rcases List.mem_append.mp hq with hq | hq
    · exact hqueue.inside q (List.mem_append_left back hq)
    · exact hcut.inside q hq

theorem Placement.syn_proper {queue front back : List TsegQent}
    {sequence dataLength : Nat} {data : Nat → UInt8}
    (hplace : Placement queue pkt front back sequence data dataLength)
    (hproper : Segments.Proper TsegQent.seq TsegQent.stop queue) :
    Segments.Proper TsegQent.seq TsegQent.stop
      (front ++ cutBefore pkt.stop back) := by
  rw [hplace.split] at hproper
  have hcut := cutBefore_proper pkt.stop
    (hproper.sublist (List.sublist_append_right front back))
  intro q hq
  rcases List.mem_append.mp hq with hq | hq
  · exact hproper q (List.mem_append_left back hq)
  · exact hcut q hq

/-- A placed part of the packet keeps the queue ordered. -/
theorem Placement.queue {queue front back : List TsegQent}
    {sequence dataLength : Nat} {data : Nat → UInt8}
    (hplace : Placement queue pkt front back sequence data dataLength)
    (hqueue : window.Queue queue) (hadmits : window.Admits pkt)
    (hproper : Segments.Proper TsegQent.seq TsegQent.stop queue)
    (hne : 0 < dataLength) (nxtSeq : Nat) :
    window.Queue (front ++ pkt.entry sequence data dataLength nxtSeq ::
        cutBefore pkt.stop back) ∧
      Segments.Proper TsegQent.seq TsegQent.stop (front ++
        pkt.entry sequence data dataLength nxtSeq ::
          cutBefore pkt.stop back) := by
  have hlo := hadmits.lo
  have hhi : pkt.stop ≤ window.hi := hadmits.hi
  have hstart := hplace.start
  have hstop := hplace.stop
  have hseq := hplace.entry_seq hadmits hne nxtSeq
  have hend := hplace.entry_stop hadmits hne nxtSeq
  have hjoined := hplace.syn_queue hqueue hadmits
  have hjoinedProper := hplace.syn_proper hproper
  rw [hplace.split] at hqueue
  have hcutSeq := (cutBefore_queue (by omega : window.lo ≤ pkt.stop)
    (hqueue.sublist (List.sublist_append_right front back))).2
  refine ⟨⟨?_, ?_⟩, ?_⟩
  · refine hjoined.ordered.insert ?_ ?_
    · intro other hmem
      rw [hseq]
      exact hplace.free other hmem
    · intro other hmem
      rw [hend]
      exact hcutSeq other hmem
  · intro q hq
    rcases List.mem_append.mp hq with hq | hq
    · exact hjoined.inside q (List.mem_append_left _ hq)
    · rcases List.mem_cons.mp hq with rfl | hq
      · refine ⟨?_, ?_⟩
        · rw [hseq]
          omega
        · rw [hend]
          exact hhi
      · exact hjoined.inside q (List.mem_append_right front hq)
  · intro q hq
    rcases List.mem_append.mp hq with hq | hq
    · exact hjoinedProper q (List.mem_append_left _ hq)
    · rcases List.mem_cons.mp hq with rfl | hq
      · rw [hseq, hend]
        omega
      · exact hjoinedProper q (List.mem_append_right front hq)

/-- A packet in the place of an entry with the same end keeps the queue
ordered. -/
theorem replacedBy_queue {front back : List TsegQent} {p : TsegQent}
    (hqueue : window.Queue (front ++ p :: back))
    (hproper : Segments.Proper TsegQent.seq TsegQent.stop
      (front ++ p :: back))
    (hadmits : window.Admits pkt) (hseq : p.seq ≤ pkt.sequence)
    (hover : pkt.sequence < p.stop) (hstop : p.stop = pkt.stop) :
    window.Queue (front ++ p.replacedBy pkt :: back) ∧
      Segments.Proper TsegQent.seq TsegQent.stop
        (front ++ p.replacedBy pkt :: back) := by
  have hnewSeq := TsegQent.replacedBy_seq hadmits hover hstop
  have hnewStop := TsegQent.replacedBy_stop hadmits hover hstop
  obtain ⟨hfront, hrest, hacross⟩ := List.pairwise_append.mp hqueue.ordered
  obtain ⟨hfirst, hback⟩ := List.pairwise_cons.mp hrest
  refine ⟨⟨?_, ?_⟩, ?_⟩
  · refine List.pairwise_append.mpr ⟨hfront,
      List.pairwise_cons.mpr ⟨?_, hback⟩, ?_⟩
    · rw [hnewStop, ← hstop]
      exact hfirst
    · intro first hmem second hmem'
      rcases List.mem_cons.mp hmem' with rfl | hmem'
      · rw [hnewSeq]
        exact Nat.le_trans (hacross first hmem p List.mem_cons_self) hseq
      · exact hacross first hmem second (List.mem_cons_of_mem p hmem')
  · intro q hq
    rcases List.mem_append.mp hq with hq | hq
    · exact hqueue.inside q (List.mem_append_left _ hq)
    · rcases List.mem_cons.mp hq with rfl | hq
      · refine ⟨?_, ?_⟩
        · rw [hnewSeq]
          exact hadmits.lo
        · rw [hnewStop]
          exact hadmits.hi
      · exact hqueue.inside q (by simp [hq])
  · intro q hq
    rcases List.mem_append.mp hq with hq | hq
    · exact hproper q (List.mem_append_left _ hq)
    · rcases List.mem_cons.mp hq with rfl | hq
      · rw [hnewSeq, hnewStop, ← hstop]
        exact hover
      · exact hproper q (by simp [hq])

/-- The queueing part keeps the invariant and sends in order. -/
theorem queueSegment_sound (hsound : flowData.Sound window disorderDepth)
    (hadmits : window.Admits pkt) (hdepth : disorderDepth < 2 ^ 31)
    (hdata : pkt.dataLength = 0 → pkt.has thSyn = true) :
    (queueSegment disorderDepth flowData pkt).2.1.Sound window disorderDepth ∧
      SentInOrder (queueSegment disorderDepth flowData pkt).2.2 ∧
      (queueSegment disorderDepth flowData pkt).1 ≠ .overflow := by
  have hne : pkt.has thSyn = false → 0 < pkt.dataLength := by
    intro hsyn
    rcases Nat.eq_zero_or_pos pkt.dataLength with hzero | hpos
    · rw [hdata hzero] at hsyn
      cases hsyn
    · exact hpos
  have hnil : SentInOrder [] := List.Pairwise.nil
  have hshort := hsound.short
  have hmax : flowData.head.length < 2 ^ 31 := by omega
  have hstep := queueSegment_step hsound.queue hadmits disorderDepth
  generalize queueSegment disorderDepth flowData pkt = result at hstep ⊢
  cases hstep with
  | tooFar => exact ⟨hsound, hnil, by simp⟩
  | duplicate => exact ⟨hsound, hnil, by simp⟩
  | replace hhead hseq hover hstop =>
      obtain ⟨hqueue, hproper, hcounted, hshort⟩ := hsound
      rw [hhead] at hqueue hproper hcounted hshort
      obtain ⟨hqueue, hproper⟩ := replacedBy_queue hqueue hproper hadmits
        hseq hover hstop
      refine ⟨⟨hqueue, hproper, ?_, ?_⟩, hnil, by simp⟩
      · simpa using hcounted
      · simpa using hshort
  | @syn front back sequence dataLength rcvNxt tsegqeLen data hsyn hplace
      hcount =>
      refine ⟨⟨hplace.syn_queue hsound.queue hadmits,
        hplace.syn_proper hsound.proper, hcount hsound.counted hmax, ?_⟩,
        hnil, by simp⟩
      have hcut := length_cutBefore_le pkt.stop back
      rw [hplace.split] at hshort
      simp only [List.length_append] at hshort ⊢
      omega
  | @flush front back sequence dataLength nxtSeq data hsyn hplace =>
      obtain ⟨hqueue, hproper⟩ := hplace.queue hsound.queue hadmits
        hsound.proper (hplace.nonempty (hne hsyn)) nxtSeq
      exact ⟨.of_empty rfl rfl (by omega), hqueue.sentInOrder hproper,
        by simp⟩
  | @queued front back sequence dataLength nxtSeq rcvNxt tsegqeLen data hsyn
      hplace hcount hlen =>
      obtain ⟨hqueue, hproper⟩ := hplace.queue hsound.queue hadmits
        hsound.proper (hplace.nonempty (hne hsyn)) nxtSeq
      have hcounted := hcount hsound.counted hmax
      exact ⟨⟨hqueue, hproper, hcounted, hcounted ▸ hlen⟩, hnil, by simp⟩

/-- Draining sends the entries up to the first one that ends behind `rcv_nxt`
and leaves the others. -/
theorem drainAcked_eq (queue : List TsegQent) (flowData : TcpFlowData)
    (hhead : flowData.head = queue) :
    (drainAcked queue flowData).1.head =
        queue.dropWhile (fun q => q.nxtSeq ≤ flowData.rcvNxt) ∧
      (drainAcked queue flowData).2 =
        queue.takeWhile fun q => q.nxtSeq ≤ flowData.rcvNxt := by
  induction queue generalizing flowData with
  | nil => exact ⟨hhead, rfl⟩
  | cons q rest ih =>
      rw [List.dropWhile_cons, List.takeWhile_cons, drainAcked]
      by_cases hbelow : q.nxtSeq ≤ flowData.rcvNxt
      · obtain ⟨hdrop, htake⟩ := ih (sendPacket flowData)
          (by rw [sendPacket, hhead]; rfl)
        simp only [hbelow, decide_true, if_true]
        exact ⟨hdrop, congrArg (q :: ·) htake⟩
      · simp only [hbelow, decide_false, Bool.false_eq_true, if_false]
        exact ⟨hhead, trivial⟩

/-- An acknowledgement of `rcv_nxt` sends the entries up to it, any other one
sends everything. -/
theorem sendReverseTcpflow_eq (flowData : TcpFlowData) (ackNum : Nat) :
    (sendReverseTcpflow flowData ackNum).1.head =
        (if toInt (sub64 ackNum flowData.rcvNxt) = 0 then
          flowData.head.dropWhile fun q => q.nxtSeq ≤ flowData.rcvNxt
        else []) ∧
      (sendReverseTcpflow flowData ackNum).2 =
        if toInt (sub64 ackNum flowData.rcvNxt) = 0 then
          flowData.head.takeWhile fun q => q.nxtSeq ≤ flowData.rcvNxt
        else flowData.head := by
  obtain ⟨hdrop, htake⟩ := drainAcked_eq flowData.head flowData rfl
  rw [sendReverseTcpflow]
  by_cases hack : toInt (sub64 ackNum flowData.rcvNxt) = 0
  · simp only [if_pos hack]
    rw [← hdrop, ← htake]
    split
    · exact ⟨Eq.symm ‹_›, rfl⟩
    · exact ⟨rfl, rfl⟩
  · simp only [if_neg hack]
    exact ⟨rfl, rfl⟩

/-- Draining counts the entries down one by one. -/
theorem drainAcked_tsegqeLen (queue : List TsegQent) (flowData : TcpFlowData)
    (hhead : flowData.head = queue)
    (hcounted : flowData.tsegqeLen = queue.length)
    (hmax : queue.length < 2 ^ 31) :
    (drainAcked queue flowData).1.tsegqeLen =
      (drainAcked queue flowData).1.head.length := by
  induction queue generalizing flowData with
  | nil =>
      rw [drainAcked, hhead]
      exact hcounted
  | cons q rest ih =>
      rw [List.length_cons] at hcounted hmax
      rw [drainAcked]
      split
      · have hdec := dec32_eq (n := flowData.tsegqeLen) (by omega) (by omega)
        exact ih (sendPacket flowData)
          (by rw [sendPacket, hhead]; rfl)
          (by rw [sendPacket, hdec, hcounted]; rfl) (by omega)
      · simp only [hhead, List.length_cons]
        exact hcounted

/-- Draining splits the queue into what it sends and what it leaves. -/
theorem drainAcked_split (flowData : TcpFlowData) :
    flowData.head = (drainAcked flowData.head flowData).2 ++
      (drainAcked flowData.head flowData).1.head := by
  obtain ⟨hdrop, htake⟩ := drainAcked_eq flowData.head flowData rfl
  rw [hdrop, htake, List.takeWhile_append_dropWhile]

theorem tcpFlowFlush_sound (hsound : flowData.Sound window disorderDepth) :
    (tcpFlowFlush flowData).1.Sound window disorderDepth ∧
      SentInOrder (tcpFlowFlush flowData).2 :=
  ⟨.of_empty rfl rfl (Nat.zero_lt_of_lt hsound.short),
    hsound.queue.sentInOrder hsound.proper⟩

/-- An acknowledgement keeps the invariant and sends in order. -/
theorem sendReverseTcpflow_sound
    (hsound : flowData.Sound window disorderDepth)
    (hdepth : disorderDepth < 2 ^ 31) (ackNum : Nat) :
    (sendReverseTcpflow flowData ackNum).1.Sound window disorderDepth ∧
      SentInOrder (sendReverseTcpflow flowData ackNum).2 := by
  have hshort := hsound.short
  have hsplit := drainAcked_split flowData
  have hlen := drainAcked_tsegqeLen flowData.head flowData rfl hsound.counted
    (by omega)
  have hqueue := hsound.queue
  have hproper := hsound.proper
  rw [hsplit] at hqueue hproper hshort
  rw [List.length_append] at hshort
  have hsent := (hqueue.sublist (List.sublist_append_left _ _)).sentInOrder
    (hproper.sublist (List.sublist_append_left _ _))
  unfold sendReverseTcpflow
  split
  · simp only
    split
    · exact ⟨.of_empty rfl rfl (Nat.zero_lt_of_lt hshort), hsent⟩
    · exact ⟨⟨hqueue.sublist (List.sublist_append_right _ _),
          hproper.sublist (List.sublist_append_right _ _), hlen,
          Nat.lt_of_le_of_lt (Nat.le_add_left _ _) hshort⟩, hsent⟩
  · exact tcpFlowFlush_sound hsound

theorem ackReverse_sound (fwd : TcpFlowData)
    (hsound : flowData.Sound window disorderDepth)
    (hdepth : disorderDepth < 2 ^ 31) (ackNum : Nat) :
    (ackReverse fwd flowData ackNum).1.Sound window disorderDepth ∧
      SentInOrder (ackReverse fwd flowData ackNum).2 := by
  rw [ackReverse]
  split
  · exact sendReverseTcpflow_sound hsound hdepth ackNum
  · exact ⟨hsound, List.Pairwise.nil⟩

end Invariant

/-- Both flows of a session are sound, each within its own window. -/
def MppSsn.Sound (ssn : MppSsn) (windows : FlowDirection → SeqWindow)
    (disorderDepth : Nat) : Prop :=
  ∀ direction, (ssn.flow direction).Sound (windows direction) disorderDepth

/-- What `tcp_flow_recovery` passes on: the bytes of the packet lie in the
window of its direction, and a packet without bytes has one of the flags. -/
structure TcpPacket.Passed (pkt : TcpPacket)
    (windows : FlowDirection → SeqWindow) : Prop where
  admits : (windows pkt.direction).Admits pkt
  flags : pkt.dataLength = 0 → pkt.has (thSyn ||| thFin ||| thRst) = true

theorem FlowDirection.other_ne (direction : FlowDirection) :
    direction.other ≠ direction := by
  cases direction <;> decide

theorem FlowDirection.eq_or_other (direction other : FlowDirection) :
    other = direction ∨ other = direction.other := by
  cases direction <;> cases other <;> decide

@[simp] theorem MppSsn.flow_setFlow_self (ssn : MppSsn)
    (direction : FlowDirection) (flowData : TcpFlowData) :
    (ssn.setFlow direction flowData).flow direction = flowData := by
  cases direction <;> rfl

theorem MppSsn.flow_setFlow_of_ne (ssn : MppSsn) {direction other :
    FlowDirection} (hne : other ≠ direction) (flowData : TcpFlowData) :
    (ssn.setFlow direction flowData).flow other = ssn.flow other := by
  cases direction <;> cases other <;> first | rfl | exact absurd rfl hne

/-- What holds of the flow that is set and held of the others holds of all. -/
theorem MppSsn.forall_flow_setFlow {ssn : MppSsn} {direction : FlowDirection}
    {flowData : TcpFlowData} {P : FlowDirection → TcpFlowData → Prop}
    (h : ∀ other, P other (ssn.flow other)) (hflow : P direction flowData)
    (other : FlowDirection) :
    P other ((ssn.setFlow direction flowData).flow other) := by
  by_cases heq : other = direction
  · subst heq
    rwa [MppSsn.flow_setFlow_self]
  · rw [MppSsn.flow_setFlow_of_ne ssn heq]
    exact h other

theorem MppSsn.Sound.setFlow {ssn : MppSsn}
    {windows : FlowDirection → SeqWindow} {disorderDepth : Nat}
    (h : ssn.Sound windows disorderDepth) {direction : FlowDirection}
    {flowData : TcpFlowData}
    (hflow : flowData.Sound (windows direction) disorderDepth) :
    (ssn.setFlow direction flowData).Sound windows disorderDepth :=
  MppSsn.forall_flow_setFlow
    (P := fun other flow => flow.Sound (windows other) disorderDepth) h hflow

/-- A packet with neither `FIN` nor `RST` that carries no byte is a `SYN`. -/
theorem TcpPacket.syn_of_flags {pkt : TcpPacket}
    (hall : pkt.has (thSyn ||| thFin ||| thRst) = true)
    (hpurge : pkt.has (thFin ||| thRst) = false) : pkt.has thSyn = true := by
  have hpurge : pkt.thFlags &&& (thFin ||| thRst) = 0 := by
    simpa [TcpPacket.has] using hpurge
  by_contra hsyn
  have hsyn : pkt.thFlags &&& thSyn = 0 := by
    simpa [TcpPacket.has] using hsyn
  have hnone : pkt.thFlags &&& (thSyn ||| thFin ||| thRst) = 0 := by
    rw [Nat.or_assoc, Nat.and_or_distrib_left, hsyn, hpurge]
    rfl
  simp [TcpPacket.has, hnone] at hall

/-- What one call may do. -/
structure ReassResult.Ok (result : ReassResult)
    (windows : FlowDirection → SeqWindow) (disorderDepth : Nat) : Prop where
  sound : result.ssn.Sound windows disorderDepth
  revSent : SentInOrder result.revSent
  fwdSent : SentInOrder result.fwdSent
  room : result.outcome ≠ .overflow

theorem reassTcp_ok {disorderDepth : Nat} (hdepth : disorderDepth < 2 ^ 31)
    {windows : FlowDirection → SeqWindow} {ssn : MppSsn}
    (hsound : ssn.Sound windows disorderDepth) {pkt : TcpPacket}
    (hpkt : pkt.Passed windows) :
    (reassTcp disorderDepth ssn pkt).Ok windows disorderDepth := by
  have hnil : SentInOrder [] := List.Pairwise.nil
  have hfwd := hsound pkt.direction
  have hacked := ackReverse_sound (ssn.flow pkt.direction)
    (hsound pkt.direction.other) hdepth pkt.ackNum
  simp only [reassTcp]
  split
  · exact ⟨hsound, hnil, hnil, by simp⟩
  · -- the other direction is acknowledged first
    have hssn := hsound.setFlow hacked.1
    cases hpurge : pkt.has (thFin ||| thRst) with
    | true =>
        obtain ⟨hflushed, hsent⟩ := tcpFlowFlush_sound hfwd
        exact ⟨hssn.setFlow hflushed, hacked.2, hsent, by simp⟩
    | false =>
        have hroom : ¬ disorderDepth ≤ (ssn.flow pkt.direction).tsegqeLen := by
          rw [hfwd.counted]
          exact Nat.not_le.mpr hfwd.short
        simp only [Bool.false_eq_true, if_false, hroom]
        split
        · exact ⟨hssn, hacked.2, hnil, by simp⟩
        · obtain ⟨hqueued, hsent, hoverflow⟩ := queueSegment_sound hfwd
            hpkt.admits hdepth fun hzero =>
              TcpPacket.syn_of_flags (hpkt.flags hzero) hpurge
          exact ⟨hssn.setFlow hqueued, hacked.2, hsent, hoverflow⟩

/-- A run of calls, with the result of each. -/
def runReass (disorderDepth : Nat) : MppSsn → List TcpPacket →
    List ReassResult
  | _, [] => []
  | ssn, pkt :: rest =>
      let result := reassTcp disorderDepth ssn pkt
      result :: runReass disorderDepth result.ssn rest

theorem runReass_ok {disorderDepth : Nat} (hdepth : disorderDepth < 2 ^ 31)
    {windows : FlowDirection → SeqWindow} (pkts : List TcpPacket)
    (hpkts : ∀ pkt ∈ pkts, pkt.Passed windows) {ssn : MppSsn}
    (hsound : ssn.Sound windows disorderDepth) :
    ∀ result ∈ runReass disorderDepth ssn pkts,
      result.Ok windows disorderDepth := by
  induction pkts generalizing ssn with
  | nil => simp [runReass]
  | cons pkt rest ih =>
      have hfirst := reassTcp_ok hdepth hsound (hpkts pkt List.mem_cons_self)
      intro result hmem
      rcases List.mem_cons.mp hmem with rfl | hmem
      · exact hfirst
      · exact ih (fun other hother =>
          hpkts other (List.mem_cons_of_mem pkt hother)) hfirst.sound result hmem

/-- The queue of a flow as its readers rely on it. -/
structure TcpFlowData.WellFormed (flowData : TcpFlowData)
    (disorderDepth : Nat) : Prop where
  sorted : flowData.head.Pairwise fun first second => first.seq < second.seq
  nonempty : ∀ q ∈ flowData.head, 1 ≤ q.dataLen
  disjoint : flowData.head.Pairwise fun first second =>
    first.seq + first.dataLen ≤ second.seq
  counted : flowData.tsegqeLen = flowData.head.length
  short : flowData.tsegqeLen < disorderDepth

theorem TcpFlowData.Sound.wellFormed {flowData : TcpFlowData}
    {window : SeqWindow} {disorderDepth : Nat}
    (h : flowData.Sound window disorderDepth) :
    flowData.WellFormed disorderDepth where
  sorted := h.queue.ordered.starts h.proper
  nonempty := fun q hq => by
    have hne := h.proper q hq
    simp only [TsegQent.stop] at hne
    omega
  disjoint := h.queue.ordered
  counted := h.counted
  short := by
    rw [h.counted]
    exact h.short

/-- From empty queues on, every call of every run leaves both queues sorted,
free of overlaps and short, never finds a full queue and sends in order. -/
theorem runReass_wellFormed {disorderDepth : Nat} (hpos : 1 ≤ disorderDepth)
    (hdepth : disorderDepth < 2 ^ 8) {ssn : MppSsn}
    (hempty : ∀ direction, (ssn.flow direction).head = [] ∧
      (ssn.flow direction).tsegqeLen = 0)
    (windows : FlowDirection → SeqWindow) (pkts : List TcpPacket)
    (hpkts : ∀ pkt ∈ pkts, pkt.Passed windows) :
    ∀ result ∈ runReass disorderDepth ssn pkts,
      (∀ direction, (result.ssn.flow direction).WellFormed disorderDepth) ∧
        result.outcome ≠ .overflow ∧ SentInOrder result.revSent ∧
        SentInOrder result.fwdSent := by
  have hsound : ssn.Sound windows disorderDepth := by
    intro direction
    obtain ⟨hhead, hlen⟩ := hempty direction
    exact .of_empty hhead hlen hpos
  intro result hmem
  have hok := runReass_ok (by omega) pkts hpkts hsound result hmem
  exact ⟨fun direction => (hok.sound direction).wellFormed, hok.room,
    hok.revSent, hok.fwdSent⟩

/-- An opening, a segment, one that overlaps it and an acknowledgement from the
other side, which carries data of its own. -/
def overlappingPackets : List TcpPacket :=
  [⟨100, 0, fun _ => 0, 0, thSyn, .positive, true⟩,
    ⟨111, 200, fun _ => 1, 10, 0, .positive, true⟩,
    ⟨101, 200, fun _ => 2, 15, 0, .positive, true⟩,
    ⟨200, 121, fun _ => 3, 4, 0, .negative, true⟩]

theorem runReass_wellFormed_overlappingPackets :
    (runReass 5 (ssnPrepare 100 200) overlappingPackets).length = 4 ∧
      ∀ result ∈ runReass 5 (ssnPrepare 100 200) overlappingPackets,
        (∀ direction, (result.ssn.flow direction).WellFormed 5) ∧
          result.outcome ≠ .overflow ∧ SentInOrder result.revSent ∧
          SentInOrder result.fwdSent := by
  refine ⟨rfl, runReass_wellFormed (by decide) (by decide) ?_
    (fun _ => ⟨0, 1000, by decide, by decide⟩) overlappingPackets ?_⟩
  · rintro (_ | _) <;> exact ⟨rfl, rfl⟩
  · intro pkt hpkt
    simp only [overlappingPackets, List.mem_cons, List.not_mem_nil,
      or_false] at hpkt
    rcases hpkt with rfl | rfl | rfl | rfl <;>
      exact ⟨⟨by decide, by decide⟩, by decide⟩

end Barley
