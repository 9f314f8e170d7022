/-
No buffer is lost and none is freed twice.  Every piece of the reassembly
moves buffers and entries between the queues and the log, and keeps the number
of places at which each of them is found.
-/
import Mathlib.Data.List.TakeDrop
import Barley.TcpOwnership

namespace Barley

/-- The buffers given to `frcore_work_free`, in order. -/
def workFrees (log : List FlowEvent) : List Nat :=
  log.filterMap fun
    | .workFree work => some work
    | _ => none

/-- The entries taken from the pool. -/
def qentTakes (log : List FlowEvent) : List Nat :=
  log.filterMap fun
    | .qentTake qent => some qent
    | _ => none

/-- The entries given back to the pool. -/
def qentFrees (log : List FlowEvent) : List Nat :=
  log.filterMap fun
    | .qentFree qent => some qent
    | _ => none

section Counts

/-- How often a buffer is held by an entry of the queue or has been freed. -/
def workCount (queue : List OwnedQent) (log : List FlowEvent) (work : Nat) :
    Nat :=
  (queue.map OwnedQent.work).count work + (workFrees log).count work

/-- How often an entry is linked in the queue or has been given back. -/
def qentCount (queue : List OwnedQent) (log : List FlowEvent) (qent : Nat) :
    Nat :=
  (queue.map OwnedQent.qent).count qent + (qentFrees log).count qent

/-- What a piece of the code may do with a queue and the log: every buffer and
every entry is found as often as before. -/
structure Balanced (queue queue' : List OwnedQent)
    (log log' : List FlowEvent) : Prop where
  works : ∀ work, workCount queue' log' work = workCount queue log work
  qents : ∀ qent, qentCount queue' log' qent = qentCount queue log qent
  takes : qentTakes log' = qentTakes log

variable {queue queue' queue'' : List OwnedQent}
  {log log' log'' : List FlowEvent}

theorem Balanced.refl (queue : List OwnedQent) (log : List FlowEvent) :
    Balanced queue queue log log :=
  ⟨fun _ => rfl, fun _ => rfl, rfl⟩

theorem Balanced.trans (h : Balanced queue queue' log log')
    (h' : Balanced queue' queue'' log' log'') :
    Balanced queue queue'' log log'' :=
  ⟨fun work => (h'.works work).trans (h.works work),
    fun qent => (h'.qents qent).trans (h.qents qent),
    h'.takes.trans h.takes⟩

theorem workCount_append (front queue : List OwnedQent)
    (log : List FlowEvent) (work : Nat) :
    workCount (front ++ queue) log work =
      (front.map OwnedQent.work).count work + workCount queue log work := by
  rw [workCount, workCount, List.map_append, List.count_append, Nat.add_assoc]

theorem qentCount_append (front queue : List OwnedQent)
    (log : List FlowEvent) (qent : Nat) :
    qentCount (front ++ queue) log qent =
      (front.map OwnedQent.qent).count qent + qentCount queue log qent := by
  rw [qentCount, qentCount, List.map_append, List.count_append, Nat.add_assoc]

/-- Entries in front of the queue do not matter. -/
theorem Balanced.append (h : Balanced queue queue' log log')
    (front : List OwnedQent) :
    Balanced (front ++ queue) (front ++ queue') log log' := by
  refine ⟨?_, ?_, h.takes⟩
  · intro work
    rw [workCount_append, workCount_append, h.works]
  · intro qent
    rw [qentCount_append, qentCount_append, h.qents]

/-- Neither the data of the entries nor their order matters. -/
theorem Balanced.of_perm
    (hwork : (queue'.map OwnedQent.work).Perm (queue.map OwnedQent.work))
    (hqent : (queue'.map OwnedQent.qent).Perm (queue.map OwnedQent.qent))
    (log : List FlowEvent) : Balanced queue queue' log log := by
  refine ⟨?_, ?_, rfl⟩
  · intro work
    rw [workCount, workCount, hwork.count_eq]
  · intro qent
    rw [qentCount, qentCount, hqent.count_eq]

end Counts

section Events

theorem workFrees_append (log log' : List FlowEvent) :
    workFrees (log ++ log') = workFrees log ++ workFrees log' :=
  List.filterMap_append

theorem qentFrees_append (log log' : List FlowEvent) :
    qentFrees (log ++ log') = qentFrees log ++ qentFrees log' :=
  List.filterMap_append

theorem qentTakes_append (log log' : List FlowEvent) :
    qentTakes (log ++ log') = qentTakes log ++ qentTakes log' :=
  List.filterMap_append

/-- Submission frees the buffer of its entry once and touches no entry. -/
structure FreesOnly (events : List FlowEvent) (work : Nat) : Prop where
  works : workFrees events = [work]
  frees : qentFrees events = []
  takes : qentTakes events = []

theorem FreesOnly.block {events : List FlowEvent} {work : Nat}
    (h : FreesOnly events work) (addr : Nat) :
    FreesOnly (.block addr :: events) work :=
  ⟨h.works, h.frees, h.takes⟩

theorem FreesOnly.cell {events : List FlowEvent} {work : Nat}
    (h : FreesOnly events work) (cell : SsnFifoCell) :
    FreesOnly (.cell cell :: events) work :=
  ⟨h.works, h.frees, h.takes⟩

variable {ssn : SubmitSsn} {current : TsegQent} {work : Nat} {env : SubmitEnv}

theorem submitPayload_frees (rv : Fre) :
    FreesOnly (submitPayload ssn current work rv).2.2 work := by
  rw [submitPayload]
  split
  · exact ⟨rfl, rfl, rfl⟩
  · exact ⟨rfl, rfl, rfl⟩

theorem submitToBlock_frees :
    FreesOnly (submitToBlock ssn current work env).2.2 work := by
  have hclosed : ssn.close.ssnAddr.addrFlag = 0 := rfl
  rw [submitToBlock]
  split
  · split
    · exact ⟨rfl, rfl, rfl⟩
    · cases env.nextBlock with
      | none =>
          rw [checkSsnAddr_none hclosed]
          exact ⟨rfl, rfl, rfl⟩
      | some addr =>
          rw [checkSsnAddr_some hclosed]
          exact ((submitPayload_frees env.payloadRv).block addr).cell _
  · exact submitPayload_frees env.payloadRv

/-- Every way out of `sbumit_data_to_fifo` frees the buffer once. -/
theorem sbumitDataToFifo_frees :
    FreesOnly (sbumitDataToFifo ssn current work env).2.2 work := by
  rw [sbumitDataToFifo]
  by_cases hflag : ssn.ssnAddr.addrFlag = 0
  · cases env.firstBlock with
    | none =>
        rw [checkSsnAddr_none hflag]
        exact ⟨rfl, rfl, rfl⟩
    | some addr =>
        rw [checkSsnAddr_some hflag]
        exact submitToBlock_frees.block addr
  · rw [checkSsnAddr_of_flag hflag]
    exact submitToBlock_frees

end Events

section Pieces

variable (env : Nat → SubmitEnv)

/-- An entry that is sent leaves its queue, and its buffer and itself are
freed. -/
theorem balanced_send (q : OwnedQent) (rest : List OwnedQent)
    (run : SubmitRun) :
    Balanced (q :: rest) rest run.log (run.send env q).log := by
  have hfrees : FreesOnly (sbumitDataToFifo run.ssn q.entry q.work
    (env q.qent)).2.2 q.work := sbumitDataToFifo_frees
  refine ⟨?_, ?_, ?_⟩
  · intro work
    rw [workCount, workCount, SubmitRun.send, workFrees_append,
      workFrees_append, hfrees.works, List.map_cons, List.count_cons,
      List.count_append, List.count_append, List.count_singleton]
    show _ + (_ + _ + 0) = _
    omega
  · intro qent
    rw [qentCount, qentCount, SubmitRun.send, qentFrees_append,
      qentFrees_append, hfrees.frees, List.map_cons, List.count_cons,
      List.count_append, List.append_nil]
    show _ + (_ + List.count qent [q.qent]) = _
    rw [List.count_singleton]
    omega
  · rw [SubmitRun.send, qentTakes_append, qentTakes_append, hfrees.takes,
      List.append_nil]
    exact List.append_nil _

/-- An entry that is dequeued is freed with its buffer. -/
theorem balanced_free (q : OwnedQent) (rest : List OwnedQent)
    (run : SubmitRun) :
    Balanced (q :: rest) rest run.log
      ((run.emit (.workFree q.work)).emit (.qentFree q.qent)).log := by
  refine ⟨?_, ?_, ?_⟩
  · intro work
    rw [workCount, workCount, SubmitRun.emit, SubmitRun.emit, workFrees_append,
      workFrees_append, List.map_cons, List.count_cons, List.count_append,
      List.count_append]
    show _ + (_ + List.count work [q.work] + 0) = _
    rw [List.count_singleton]
    omega
  · intro qent
    rw [qentCount, qentCount, SubmitRun.emit, SubmitRun.emit, qentFrees_append,
      qentFrees_append, List.map_cons, List.count_cons, List.count_append,
      List.count_append]
    show _ + (_ + 0 + List.count qent [q.qent]) = _
    rw [List.count_singleton]
    omega
  · rw [SubmitRun.emit, SubmitRun.emit, qentTakes_append, qentTakes_append]
    show _ ++ [] ++ [] = _
    rw [List.append_nil, List.append_nil]

theorem balanced_sendAll (queue : List OwnedQent) (run : SubmitRun) :
    Balanced queue [] run.log (queue.foldl (SubmitRun.send env) run).log := by
  induction queue generalizing run with
  | nil => exact .refl [] run.log
  | cons q rest ih => exact (balanced_send env q rest run).trans (ih _)

theorem balanced_flush (flow : OwnedFlow) (run : SubmitRun) :
    Balanced flow.head (flushOwned env flow run).1.head run.log
      (flushOwned env flow run).2.log :=
  balanced_sendAll env flow.head run

theorem balanced_drain (entries : List OwnedQent) (flow : OwnedFlow)
    (run : SubmitRun) (hhead : flow.head = entries) :
    Balanced flow.head (drainOwned env entries flow run).1.head run.log
      (drainOwned env entries flow run).2.log := by
  induction entries generalizing flow run with
  | nil => exact .refl flow.head run.log
  | cons q rest ih =>
      rw [drainOwned]
      split
      · have hrest : flow.removeFirst.head = rest := by
          rw [OwnedFlow.removeFirst, hhead, List.tail_cons]
        have hsend := balanced_send env q rest run
        have hnext := ih flow.removeFirst (run.send env q) hrest
        rw [hrest] at hnext
        rw [hhead]
        exact hsend.trans hnext
      · exact .refl flow.head run.log

theorem balanced_sendReverse (flow : OwnedFlow) (ackNum : Nat)
    (run : SubmitRun) :
    Balanced flow.head (sendReverseOwned env flow ackNum run).1.head run.log
      (sendReverseOwned env flow ackNum run).2.log := by
  have hdrain := balanced_drain env flow.head flow run rfl
  rw [sendReverseOwned]
  split
  · generalize drainOwned env flow.head flow run = result at hdrain
    obtain ⟨drained, run'⟩ := result
    simp only at hdrain ⊢
    split
    · rename_i hnil
      rw [hnil] at hdrain
      exact hdrain
    · exact hdrain
  · exact balanced_flush env flow run

theorem balanced_ackReverse (fwd rev : OwnedFlow) (ackNum : Nat)
    (run : SubmitRun) :
    Balanced rev.head (ackReverseOwned env fwd rev ackNum run).1.head run.log
      (ackReverseOwned env fwd rev ackNum run).2.log := by
  rw [ackReverseOwned]
  split
  · exact balanced_sendReverse env rev ackNum run
  · exact .refl rev.head run.log

theorem balanced_trim (stop : Nat) (entries : List OwnedQent)
    (tsegqeLen : Nat) (run : SubmitRun) :
    Balanced entries (trimOwned stop entries tsegqeLen run).1 run.log
      (trimOwned stop entries tsegqeLen run).2.2.log := by
  induction entries generalizing tsegqeLen run with
  | nil => exact .refl [] run.log
  | cons q rest ih =>
      rw [trimOwned]
      simp only
      split
      · exact .refl (q :: rest) run.log
      · split
        · refine .of_perm ?_ ?_ run.log
          · exact List.Perm.refl (List.map OwnedQent.work (q :: rest))
          · exact List.Perm.refl (List.map OwnedQent.qent (q :: rest))
        · exact (balanced_free q rest run).trans (ih _ _)

/-- A new entry is found again in the queue or in the log, with the buffer of
its packet. -/
theorem balanced_place (disorderDepth : Nat) (flow : OwnedFlow)
    (pkt : TcpPacket) (te work : Nat) (front back : List OwnedQent)
    (sequence : Nat) (data : Nat → UInt8) (dataLength : Nat)
    (run : SubmitRun) (entry : TsegQent) :
    Balanced (⟨entry, te, work⟩ :: (front ++ back))
      (placeOwned env disorderDepth flow pkt te work front back sequence data
        dataLength run).1.head run.log
      (placeOwned env disorderDepth flow pkt te work front back sequence data
        dataLength run).2.log := by
  have htrim := (balanced_trim (add64 sequence dataLength) back flow.tsegqeLen
    run).append (⟨entry, te, work⟩ :: front)
  rw [placeOwned]
  generalize trimOwned (add64 sequence dataLength) back flow.tsegqeLen run =
    result at htrim
  obtain ⟨back', tsegqeLen, run'⟩ := result
  simp only at htrim ⊢
  rw [List.cons_append, List.cons_append] at htrim
  generalize (if pkt.has thSyn then add64 (add64 sequence dataLength) 1
    else add64 sequence dataLength) = nxtSeq
  generalize (if front ++ back' = [] then nxtSeq else flow.rcvNxt) = rcvNxt
  split
  · exact htrim.trans
      (balanced_free ⟨entry, te, work⟩ (front ++ back') run')
  · have hinsert : ∀ entry' : TsegQent,
        Balanced (⟨entry, te, work⟩ :: (front ++ back'))
          (front ++ ⟨entry', te, work⟩ :: back') run'.log run'.log := by
      intro entry'
      refine .of_perm ?_ ?_ run'.log
      · rw [List.map_append, List.map_cons, List.map_cons, List.map_append]
        exact List.perm_middle
      · rw [List.map_append, List.map_cons, List.map_cons, List.map_append]
        exact List.perm_middle
    have hqueued := fun entry' => htrim.trans (hinsert entry')
    split
    · refine Balanced.trans ?_ (balanced_flush env _ run')
      exact hqueued _
    · split
      · exact hqueued _
      · exact hqueued _

/-- The buffer of a retransmission replaces that of the entry, and the new
entry is not needed. -/
theorem balanced_takeOver (p : OwnedQent) (pkt : TcpPacket) (te work : Nat)
    (front back : List OwnedQent) (run : SubmitRun) (entry : TsegQent) :
    Balanced (⟨entry, te, work⟩ :: (front ++ [p] ++ back))
      (front ++ [p.takeOver pkt work] ++ back) run.log
      ((run.emit (.qentFree te)).emit (.workFree p.work)).log := by
  refine ⟨?_, ?_, ?_⟩
  · intro other
    rw [workCount, workCount, SubmitRun.emit, SubmitRun.emit, workFrees_append,
      workFrees_append]
    simp only [List.map_cons, List.map_append, List.map_nil, List.count_cons,
      List.count_append, List.count_nil, OwnedQent.takeOver]
    show _ + (_ + 0 + List.count other [p.work]) = _
    rw [List.count_singleton]
    omega
  · intro other
    rw [qentCount, qentCount, SubmitRun.emit, SubmitRun.emit, qentFrees_append,
      qentFrees_append]
    simp only [List.map_cons, List.map_append, List.map_nil, List.count_cons,
      List.count_append, List.count_nil, OwnedQent.takeOver]
    show _ + (_ + List.count other [te] + 0) = _
    rw [List.count_singleton]
    omega
  · rw [SubmitRun.emit, SubmitRun.emit, qentTakes_append, qentTakes_append]
    show _ ++ [] ++ [] = _
    rw [List.append_nil, List.append_nil]

theorem balanced_queue (disorderDepth : Nat) (flow : OwnedFlow)
    (pkt : TcpPacket) (te work : Nat) (run : SubmitRun) (entry : TsegQent) :
    Balanced (⟨entry, te, work⟩ :: flow.head)
      (queueOwned env disorderDepth flow pkt te work run).1.head run.log
      (queueOwned env disorderDepth flow pkt te work run).2.log := by
  rw [queueOwned]
  generalize hspan : flow.head.span (fun q =>
    !seqGt q.entry.seq pkt.sequence) = parts
  obtain ⟨front, back⟩ := parts
  have hhead : front ++ back = flow.head := by
    rw [List.span_eq_takeWhile_dropWhile, Prod.mk.injEq] at hspan
    rw [← hspan.1, ← hspan.2]
    exact List.takeWhile_append_dropWhile
  simp only
  have hdrop := balanced_free ⟨entry, te, work⟩ flow.head run
  split
  · exact hdrop
  · split
    · exact hdrop
    · rename_i hreplace
      cases hlast : front.getLast? with
      | none =>
          rw [hlast] at hreplace
          exact absurd hreplace (by rw [Option.map_none]; nofun)
      | some p =>
          have hfront : front.dropLast ++ [p] = front :=
            List.dropLast_append_getLast? p hlast
          rw [← hhead, ← hfront, List.dropLast_concat]
          exact balanced_takeOver p pkt te work front.dropLast back run entry
    · rw [← hhead]
      exact balanced_place env disorderDepth flow pkt te work front back _ _ _
        run entry

end Pieces

section Sessions

/-- The entries of both queues. -/
def OwnedSsn.entries (ssn : OwnedSsn) : List OwnedQent :=
  ssn.positiveData.head ++ ssn.negativeData.head

theorem workCount_entries (ssn : OwnedSsn) (direction : FlowDirection)
    (log : List FlowEvent) (work : Nat) :
    workCount ssn.entries log work =
      ((ssn.flow direction.other).head.map OwnedQent.work).count work +
        workCount (ssn.flow direction).head log work := by
  cases direction with
  | positive =>
      rw [OwnedSsn.entries, workCount, workCount, List.map_append,
        List.count_append]
      show _ = List.count work (ssn.negativeData.head.map OwnedQent.work) +
        (List.count work (ssn.positiveData.head.map OwnedQent.work) + _)
      omega
  | negative => exact workCount_append _ _ log work

theorem qentCount_entries (ssn : OwnedSsn) (direction : FlowDirection)
    (log : List FlowEvent) (qent : Nat) :
    qentCount ssn.entries log qent =
      ((ssn.flow direction.other).head.map OwnedQent.qent).count qent +
        qentCount (ssn.flow direction).head log qent := by
  cases direction with
  | positive =>
      rw [OwnedSsn.entries, qentCount, qentCount, List.map_append,
        List.count_append]
      show _ = List.count qent (ssn.negativeData.head.map OwnedQent.qent) +
        (List.count qent (ssn.positiveData.head.map OwnedQent.qent) + _)
      omega
  | negative => exact qentCount_append _ _ log qent

theorem OwnedSsn.flow_setFlow (ssn : OwnedSsn) (direction : FlowDirection)
    (flow : OwnedFlow) : (ssn.setFlow direction flow).flow direction = flow := by
  cases direction <;> rfl

theorem OwnedSsn.flow_setFlow_other (ssn : OwnedSsn)
    (direction : FlowDirection) (flow : OwnedFlow) :
    (ssn.setFlow direction flow).flow direction.other =
      ssn.flow direction.other := by
  cases direction <;> rfl

theorem OwnedSsn.flow_setFlow_of_other (ssn : OwnedSsn)
    (direction : FlowDirection) (flow : OwnedFlow) :
    (ssn.setFlow direction.other flow).flow direction =
      ssn.flow direction := by
  cases direction <;> rfl

variable {ssn : OwnedSsn} {flow : OwnedFlow} {queue queue' queue'' : List OwnedQent}
  {log log' log'' : List FlowEvent} {te work : Nat}

/-- A balanced change of one flow is a balanced change of the session. -/
theorem Balanced.setFlow (direction : FlowDirection)
    (h : Balanced (ssn.flow direction).head flow.head log log') :
    Balanced ssn.entries (ssn.setFlow direction flow).entries log log' := by
  refine ⟨?_, ?_, h.takes⟩
  · intro work
    rw [workCount_entries _ direction, workCount_entries _ direction,
      OwnedSsn.flow_setFlow, OwnedSsn.flow_setFlow_other, h.works]
  · intro qent
    rw [qentCount_entries _ direction, qentCount_entries _ direction,
      OwnedSsn.flow_setFlow, OwnedSsn.flow_setFlow_other, h.qents]

/-- What the code may do with a packet: its buffer is found at one place more
than before, and so is the entry `te` if it was taken. -/
structure Received (te work : Nat) (queue queue' : List OwnedQent)
    (log log' : List FlowEvent) : Prop where
  works : ∀ other, workCount queue' log' other =
    workCount queue log other + [work].count other
  qents : ∃ taken : List Nat, taken.Sublist [te] ∧
    qentTakes log' = qentTakes log ++ taken ∧
    ∀ other, qentCount queue' log' other =
      qentCount queue log other + taken.count other

theorem Balanced.received (h : Balanced queue queue' log log')
    (h' : Received te work queue' queue'' log' log'') :
    Received te work queue queue'' log log'' := by
  obtain ⟨taken, hsub, htakes, hqents⟩ := h'.qents
  refine ⟨?_, taken, hsub, ?_, ?_⟩
  · intro other
    rw [h'.works, h.works]
  · rw [htakes, h.takes]
  · intro other
    rw [hqents, h.qents]

theorem Received.balanced (h : Received te work queue queue' log log')
    (h' : Balanced queue' queue'' log' log'') :
    Received te work queue queue'' log log'' := by
  obtain ⟨taken, hsub, htakes, hqents⟩ := h.qents
  refine ⟨?_, taken, hsub, ?_, ?_⟩
  · intro other
    rw [h'.works, h.works]
  · rw [h'.takes, htakes]
  · intro other
    rw [h'.qents, hqents]

theorem Received.setFlow (direction : FlowDirection)
    (h : Received te work (ssn.flow direction).head flow.head log log') :
    Received te work ssn.entries (ssn.setFlow direction flow).entries log
      log' := by
  obtain ⟨taken, hsub, htakes, hqents⟩ := h.qents
  refine ⟨?_, taken, hsub, htakes, ?_⟩
  · intro other
    rw [workCount_entries _ direction, workCount_entries _ direction,
      OwnedSsn.flow_setFlow, OwnedSsn.flow_setFlow_other, h.works,
      Nat.add_assoc]
  · intro other
    rw [qentCount_entries _ direction, qentCount_entries _ direction,
      OwnedSsn.flow_setFlow, OwnedSsn.flow_setFlow_other, hqents,
      Nat.add_assoc]

/-- A packet that is dropped before an entry is taken. -/
theorem received_drop (te work : Nat) (queue : List OwnedQent)
    (run : SubmitRun) :
    Received te work queue queue run.log (run.emit (.workFree work)).log := by
  refine ⟨?_, [], List.nil_sublist _, ?_, ?_⟩
  · intro other
    rw [workCount, workCount, SubmitRun.emit, workFrees_append,
      List.count_append, Nat.add_assoc]
    rfl
  · rw [SubmitRun.emit, qentTakes_append]
    rfl
  · intro other
    rw [qentCount, qentCount, SubmitRun.emit, qentFrees_append]
    show _ + List.count other (_ ++ []) = _
    rw [List.append_nil]
    rfl

/-- A packet with an entry at hand, when both are accounted for. -/
theorem received_take {run : SubmitRun} (entry : TsegQent)
    (h : Balanced (⟨entry, te, work⟩ :: queue) queue'
      (run.emit (.qentTake te)).log log') :
    Received te work queue queue' run.log log' := by
  have htakes : qentTakes (run.emit (.qentTake te)).log =
      qentTakes run.log ++ [te] := by
    rw [SubmitRun.emit, qentTakes_append]
    rfl
  refine ⟨?_, [te], List.Sublist.refl _, h.takes.trans htakes, ?_⟩
  · intro other
    rw [h.works, workCount, workCount, SubmitRun.emit, workFrees_append,
      List.map_cons, List.count_cons, List.count_singleton]
    show _ + (if work == other then 1 else 0) + List.count other (_ ++ []) = _
    rw [List.append_nil]
    omega
  · intro other
    rw [h.qents, qentCount, qentCount, SubmitRun.emit, qentFrees_append,
      List.map_cons, List.count_cons, List.count_singleton]
    show _ + (if te == other then 1 else 0) + List.count other (_ ++ []) = _
    rw [List.append_nil]
    omega

variable (env : Nat → SubmitEnv)

/-- `reass_tcp` accounts for the packet on each of its ways out. -/
theorem received_reass (disorderDepth : Nat) (ssn : OwnedSsn)
    (pkt : TcpPacket) (te work : Nat) (run : SubmitRun) :
    Received te work ssn.entries
      (reassOwned env disorderDepth ssn pkt te work run).1.entries run.log
      (reassOwned env disorderDepth ssn pkt te work run).2.log := by
  rw [reassOwned]
  split
  · exact received_drop te work ssn.entries run
  · have hrev := (balanced_ackReverse env (ssn.flow pkt.direction)
      (ssn.flow pkt.direction.other) pkt.ackNum run).setFlow
      pkt.direction.other
    simp only
    generalize ackReverseOwned env (ssn.flow pkt.direction)
      (ssn.flow pkt.direction.other) pkt.ackNum run = acked at hrev
    obtain ⟨rev, run'⟩ := acked
    simp only at hrev ⊢
    refine hrev.received ?_
    have hfwd := OwnedSsn.flow_setFlow_of_other ssn pkt.direction rev
    generalize ssn.setFlow pkt.direction.other rev = ssn' at hfwd
    rw [← hfwd]
    have hdrop := received_drop te work ssn'.entries run'
    split
    · refine hdrop.balanced (Balanced.setFlow pkt.direction ?_)
      exact balanced_flush env (ssn'.flow pkt.direction) _
    · split
      · exact hdrop
      · split
        · exact hdrop
        · refine Received.setFlow pkt.direction (received_take
            ⟨0, 0, 0, pkt.data, 0, pkt.direction⟩ ?_)
          exact balanced_queue env disorderDepth (ssn'.flow pkt.direction) pkt
            te work _ _

theorem received_recovery (disorderDepth : Nat) (ssn : OwnedSsn)
    (pkt : IpTcpPacket) (te work : Nat) (run : SubmitRun) :
    Received te work ssn.entries
      (tcpFlowRecovery env disorderDepth ssn pkt te work run).1.entries run.log
      (tcpFlowRecovery env disorderDepth ssn pkt te work run).2.log := by
  have hdrop := received_drop te work ssn.entries run
  rw [tcpFlowRecovery]
  split
  · split
    · exact hdrop
    · exact received_reass env disorderDepth ssn pkt.segment te work run
  · exact hdrop

theorem balanced_flushLock (ssn : OwnedSsn) (run : SubmitRun) :
    Balanced ssn.entries (tcpFlowFlushLock env ssn run).1.entries run.log
      (tcpFlowFlushLock env ssn run).2.log := by
  have hpositive := balanced_flush env ssn.positiveData run
  have hnegative := balanced_flush env ssn.negativeData
    (flushOwned env ssn.positiveData run).2
  have hfirst : Balanced ssn.entries
      (ssn.setFlow .positive
        (flushLockOwned env ssn.positiveData run).1).entries run.log
      (flushLockOwned env ssn.positiveData run).2.log :=
    Balanced.setFlow .positive hpositive
  exact hfirst.trans (Balanced.setFlow .negative hnegative)

end Sessions

end Barley
