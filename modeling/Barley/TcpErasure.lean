/-
Forgetting which buffers and entries are used turns the owned reassembly into
the plain one: what is queued never depends on how a submission ends.
-/
import Mathlib.Data.List.TakeDrop
import Barley.TcpOwnership

namespace Barley

section Erase

variable (flow : OwnedFlow)

@[simp] theorem OwnedFlow.erase_rcvNxt : flow.erase.rcvNxt = flow.rcvNxt := rfl

@[simp] theorem OwnedFlow.erase_tsegqeLen :
    flow.erase.tsegqeLen = flow.tsegqeLen := rfl

@[simp] theorem OwnedFlow.erase_rev : flow.erase.rev = flow.rev := rfl

theorem OwnedFlow.erase_head_eq_nil : flow.erase.head = [] ↔ flow.head = [] :=
  List.map_eq_nil_iff

end Erase

variable (env : Nat → SubmitEnv)

theorem flushOwned_erase (flow : OwnedFlow) (run : SubmitRun) :
    (flushOwned env flow run).1.erase = (tcpFlowFlush flow.erase).1 :=
  rfl

theorem removeFirst_erase (flow : OwnedFlow) :
    flow.removeFirst.erase = sendPacket flow.erase := by
  rw [OwnedFlow.removeFirst, sendPacket, OwnedFlow.erase, OwnedFlow.erase,
    List.map_tail]

theorem drainOwned_erase (entries : List OwnedQent) (flow : OwnedFlow)
    (run : SubmitRun) :
    (drainOwned env entries flow run).1.erase =
      (drainAcked (entries.map OwnedQent.entry) flow.erase).1 := by
  induction entries generalizing flow run with
  | nil => rfl
  | cons q rest ih =>
      rw [List.map_cons, drainOwned, drainAcked, flow.erase_rcvNxt]
      by_cases hacked : q.entry.nxtSeq ≤ flow.rcvNxt
      · rw [if_pos hacked, if_pos hacked, ih, removeFirst_erase]
      · rw [if_neg hacked, if_neg hacked]
        rfl

theorem sendReverseOwned_erase (flow : OwnedFlow) (ackNum : Nat)
    (run : SubmitRun) :
    (sendReverseOwned env flow ackNum run).1.erase =
      (sendReverseTcpflow flow.erase ackNum).1 := by
  have hdrain : (drainOwned env flow.head flow run).1.erase =
      (drainAcked flow.erase.head flow.erase).1 :=
    drainOwned_erase env flow.head flow run
  rw [sendReverseOwned, sendReverseTcpflow, flow.erase_rcvNxt]
  by_cases hack : toInt (sub64 ackNum flow.rcvNxt) = 0
  · rw [if_pos hack, if_pos hack]
    generalize drainAcked flow.erase.head flow.erase = plain at hdrain ⊢
    generalize drainOwned env flow.head flow run = owned at hdrain ⊢
    obtain ⟨drained, run'⟩ := owned
    obtain ⟨drained', sent⟩ := plain
    simp only at hdrain ⊢
    rw [← hdrain]
    have hnil := drained.erase_head_eq_nil
    by_cases hempty : drained.head = []
    · rw [if_pos hempty, if_pos (hnil.2 hempty)]
      rfl
    · rw [if_neg hempty, if_neg (mt hnil.1 hempty)]
      rfl
  · rw [if_neg hack, if_neg hack, flushOwned_erase]

theorem ackReverseOwned_erase (fwd rev : OwnedFlow) (ackNum : Nat)
    (run : SubmitRun) :
    (ackReverseOwned env fwd rev ackNum run).1.erase =
      (ackReverse fwd.erase rev.erase ackNum).1 := by
  have hcond : (fwd.erase.rev ∧ rev.erase.head ≠ []) ↔
      (fwd.rev ∧ rev.head ≠ []) := by
    rw [fwd.erase_rev, ne_eq, rev.erase_head_eq_nil]
  rw [ackReverseOwned, ackReverse]
  by_cases h : fwd.rev ∧ rev.head ≠ []
  · rw [if_pos h, if_pos (hcond.2 h), sendReverseOwned_erase]
  · rw [if_neg h, if_neg (mt hcond.1 h)]

theorem trimOwned_erase (stop : Nat) (entries : List OwnedQent)
    (tsegqeLen : Nat) (run : SubmitRun) :
    trimSucceeding stop (entries.map OwnedQent.entry) tsegqeLen =
      ((trimOwned stop entries tsegqeLen run).1.map OwnedQent.entry,
        (trimOwned stop entries tsegqeLen run).2.1) := by
  induction entries generalizing tsegqeLen run with
  | nil => rfl
  | cons q rest ih =>
      rw [List.map_cons, trimOwned, trimSucceeding]
      simp only
      by_cases hbehind : toInt (sub64 stop q.entry.seq) ≤ 0
      · rw [if_pos hbehind, if_pos hbehind]
        rfl
      · rw [if_neg hbehind, if_neg hbehind]
        by_cases hpart : toInt (sub64 stop q.entry.seq) < toInt q.entry.dataLen
        · rw [if_pos hpart, if_pos hpart]
          rfl
        · rw [if_neg hpart, if_neg hpart]
          exact ih _ _

theorem placeOwned_erase (disorderDepth : Nat) (flow : OwnedFlow)
    (pkt : TcpPacket) (te work : Nat) (front back : List OwnedQent)
    (sequence : Nat) (data : Nat → UInt8) (dataLength : Nat)
    (run : SubmitRun) :
    (placeOwned env disorderDepth flow pkt te work front back sequence data
        dataLength run).1.erase =
      (placeSegment disorderDepth flow.erase pkt (front.map OwnedQent.entry)
        (back.map OwnedQent.entry) sequence data dataLength).2.1 := by
  have htrim := trimOwned_erase (add64 sequence dataLength) back flow.tsegqeLen
    run
  rw [placeOwned, placeSegment, flow.erase_tsegqeLen, htrim]
  generalize trimOwned (add64 sequence dataLength) back flow.tsegqeLen run =
    trimmed
  obtain ⟨back', tsegqeLen, run'⟩ := trimmed
  simp only [← List.map_append, List.map_eq_nil_iff, flow.erase_rcvNxt]
  generalize (if pkt.has thSyn then add64 (add64 sequence dataLength) 1
    else add64 sequence dataLength) = nxtSeq
  generalize (if front ++ back' = [] then nxtSeq else flow.rcvNxt) = rcvNxt
  by_cases hsyn : pkt.has thSyn
  · rw [if_pos hsyn, if_pos hsyn]
    rfl
  · rw [if_neg hsyn, if_neg hsyn]
    have hhead : (front ++ ⟨⟨sequence % 2 ^ 32, pkt.ackNum % 2 ^ 32, nxtSeq,
        data, dataLength, pkt.direction⟩, te, work⟩ :: back').map
          OwnedQent.entry = front.map OwnedQent.entry ++
        ⟨sequence % 2 ^ 32, pkt.ackNum % 2 ^ 32, nxtSeq, data, dataLength,
          pkt.direction⟩ :: back'.map OwnedQent.entry := by
      rw [List.map_append, List.map_cons]
    by_cases hfull : disorderDepth ≤ (tsegqeLen + 1) % 2 ^ 32
    · rw [if_pos hfull, if_pos hfull]
      rfl
    · rw [if_neg hfull, if_neg hfull]
      by_cases hnext : sequence = rcvNxt
      · rw [if_pos hnext, if_pos hnext, OwnedFlow.erase, hhead]
        rfl
      · rw [if_neg hnext, if_neg hnext, OwnedFlow.erase, hhead]
        rfl

theorem queueOwned_erase (disorderDepth : Nat) (flow : OwnedFlow)
    (pkt : TcpPacket) (te work : Nat) (run : SubmitRun) :
    (queueOwned env disorderDepth flow pkt te work run).1.erase =
      (queueSegment disorderDepth flow.erase pkt).2.1 := by
  have hfront : flow.erase.head.takeWhile (fun q => !seqGt q.seq pkt.sequence) =
      (flow.head.takeWhile fun q => !seqGt q.entry.seq pkt.sequence).map
        OwnedQent.entry := List.takeWhile_map ..
  have hback : flow.erase.head.dropWhile (fun q => !seqGt q.seq pkt.sequence) =
      (flow.head.dropWhile fun q => !seqGt q.entry.seq pkt.sequence).map
        OwnedQent.entry := List.dropWhile_map ..
  rw [queueOwned, queueSegment, List.span_eq_takeWhile_dropWhile,
    List.span_eq_takeWhile_dropWhile, hfront, hback]
  generalize flow.head.takeWhile _ = front
  generalize flow.head.dropWhile _ = back
  simp only [List.getLast?_map]
  cases hlast : front.getLast? with
  | none => exact placeOwned_erase ..
  | some p =>
      simp only [Option.map_some, Option.any_some]
      by_cases hfar : seqWindow < sub64 pkt.sequence p.entry.seq
      · rw [if_pos (decide_eq_true hfar), if_pos (decide_eq_true hfar)]
      · rw [if_neg (by simpa using hfar), if_neg (by simpa using hfar)]
        cases precedingOverlap (some p.entry) pkt.sequence pkt.data
          pkt.dataLength with
        | duplicate => rfl
        | replace =>
            simp only [OwnedFlow.erase, List.map_append, Option.toList_some,
              List.map_cons, List.map_nil, List.map_dropLast]
            rfl
        | rest sequence data dataLength => exact placeOwned_erase ..

theorem OwnedSsn.erase_setFlow (ssn : OwnedSsn) (direction : FlowDirection)
    (flow : OwnedFlow) :
    (ssn.setFlow direction flow).erase =
      ssn.erase.setFlow direction flow.erase := by
  cases direction <;> rfl

theorem OwnedSsn.erase_flow (ssn : OwnedSsn) (direction : FlowDirection) :
    ssn.erase.flow direction = (ssn.flow direction).erase := by
  cases direction <;> rfl

/-- The queues after `reass_tcp` are those of the plain model, however the
submissions end and wherever the buffers go. -/
theorem reassOwned_erase (disorderDepth : Nat) (ssn : OwnedSsn)
    (pkt : TcpPacket) (te work : Nat) (run : SubmitRun) :
    (reassOwned env disorderDepth ssn pkt te work run).1.erase =
      (reassTcp disorderDepth ssn.erase pkt).ssn := by
  rw [reassOwned, reassTcp]
  by_cases hfirst : pkt.sequence < ssn.erase.ssnSeq pkt.direction
  · rw [if_pos hfirst, if_pos hfirst]
  · rw [if_neg hfirst, if_neg hfirst]
    have hrev := ackReverseOwned_erase env (ssn.flow pkt.direction)
      (ssn.flow pkt.direction.other) pkt.ackNum run
    simp only [OwnedSsn.erase_flow]
    generalize ackReverseOwned env (ssn.flow pkt.direction)
      (ssn.flow pkt.direction.other) pkt.ackNum run = owned at hrev ⊢
    generalize ackReverse (ssn.flow pkt.direction).erase
      (ssn.flow pkt.direction.other).erase pkt.ackNum = plain at hrev ⊢
    obtain ⟨rev, run'⟩ := owned
    obtain ⟨rev', sent⟩ := plain
    simp only at hrev ⊢
    rw [← hrev, ← OwnedSsn.erase_setFlow, OwnedFlow.erase_tsegqeLen]
    generalize ssn.setFlow pkt.direction.other rev = ssn'
    by_cases hend : pkt.has (thFin ||| thRst)
    · rw [if_pos hend, if_pos hend, OwnedSsn.erase_setFlow, flushOwned_erase]
    · rw [if_neg hend, if_neg hend]
      by_cases hfull : disorderDepth ≤ (ssn.flow pkt.direction).tsegqeLen
      · rw [if_pos hfull, if_pos hfull]
      · rw [if_neg hfull, if_neg hfull]
        by_cases halloc : !pkt.allocOk
        · rw [if_pos halloc, if_pos halloc]
        · rw [if_neg halloc, if_neg halloc, OwnedSsn.erase_setFlow,
            queueOwned_erase]

end Barley
