/-
`rcv_nxt` and the gap-free run at the front of a queue.  What an acknowledgement
sends is decided by `rcv_nxt`, which has to be the end of the run; the calls of
`reass_tcp` that part the two are described here.
-/
import Barley.SegmentRuns
import Barley.TcpCoverage

namespace Barley

/-- The position at which the gap-free run from the first entry ends. -/
def runEndOf (queue : List TsegQent) : Nat :=
  match queue with
  | [] => 0
  | q :: _ => Segments.runEnd TsegQent.seq TsegQent.stop q.seq queue

/-- The gap-free run from the first entry. -/
def runOf (queue : List TsegQent) : List TsegQent :=
  match queue with
  | [] => []
  | q :: _ => Segments.run TsegQent.seq TsegQent.stop q.seq queue

/-- Everything behind the first gap. -/
def behindRun (queue : List TsegQent) : List TsegQent :=
  queue.drop (runOf queue).length

/-- As long as the queue is not empty, `rcv_nxt` is the end of its run, and an
acknowledgement of the run sends the run and keeps the rest. -/
structure TcpFlowData.Tracks (flowData : TcpFlowData) : Prop where
  rcvNxt : flowData.head ≠ [] → flowData.rcvNxt = runEndOf flowData.head
  sent : flowData.head ≠ [] →
    (sendReverseTcpflow flowData (runEndOf flowData.head)).2 =
      runOf flowData.head
  kept : flowData.head ≠ [] →
    (sendReverseTcpflow flowData (runEndOf flowData.head)).1.head =
      behindRun flowData.head

/-- The entries that are left of a queue when those are taken out that the
packet covers. -/
def TcpPacket.spares (pkt : TcpPacket) (queue : List TsegQent) :
    List TsegQent :=
  queue.filter fun q => ¬ (pkt.sequence < q.seq ∧ q.stop ≤ pkt.stop)

/-- What parts `rcv_nxt` and the run.  The packet is put before the first entry
and does not reach it; it starts within the run, before the last entry of it,
and reaches over its end; it takes the place of an entry of the run that starts
before it; or it is a `SYN` with data that cuts the whole run away, or a part
out of it. -/
inductive TcpFlowData.Breaks (flowData : TcpFlowData) (disorderDepth : Nat)
    (pkt : TcpPacket) : Prop
  | before {first : TsegQent} {rest : List TsegQent}
      (hhead : flowData.head = first :: rest) (hsyn : pkt.has thSyn = false)
      (hroom : (pkt.spares flowData.head).length + 1 < disorderDepth)
      (hgap : pkt.stop < first.seq)
  | across (hsyn : pkt.has thSyn = false)
      (hroom : (pkt.spares flowData.head).length + 1 < disorderDepth)
      (hnear : isTooFar flowData pkt = false)
      (hspares : pkt.spares flowData.head ≠ [])
      (hstart : ∃ q ∈ flowData.head,
        pkt.sequence < q.seq ∧ q.seq < flowData.rcvNxt)
      (hstop : flowData.rcvNxt < pkt.stop)
  | replace (hnear : isTooFar flowData pkt = false)
      (hplace : ∃ q ∈ flowData.head, q.seq < flowData.rcvNxt ∧
        q.seq < pkt.sequence ∧ pkt.sequence < q.stop ∧ q.stop = pkt.stop ∧
        ∃ p ∈ flowData.head, p.seq < q.seq)
  | synBefore {first : TsegQent} {rest : List TsegQent}
      (hhead : flowData.head = first :: rest) (hsyn : pkt.has thSyn = true)
      (hstart : pkt.sequence < first.seq)
      (hspares : pkt.spares flowData.head ≠ [])
      (hstop : flowData.rcvNxt ≤ pkt.stop)
  | synInside (hsyn : pkt.has thSyn = true)
      (hnear : isTooFar flowData pkt = false)
      (hstart : ∃ p ∈ flowData.head, p.seq ≤ pkt.sequence)
      (hcuts : ∃ q ∈ flowData.head, pkt.sequence < q.seq ∧
        q.seq < flowData.rcvNxt ∧ q.seq < pkt.stop)

/-- The packet is queued and parts `rcv_nxt` and the run of its flow. -/
structure TcpPacket.BreaksRun (pkt : TcpPacket) (disorderDepth : Nat)
    (ssn : MppSsn) : Prop where
  first : ssn.ssnSeq pkt.direction ≤ pkt.sequence
  kept : pkt.has (thFin ||| thRst) = false
  alloc : pkt.allocOk = true
  breaks : (ssn.flow pkt.direction).Breaks disorderDepth pkt

/-- No packet of the run parts the two, in the state that it finds. -/
def KeepsRuns (disorderDepth : Nat) : MppSsn → List TcpPacket → Prop
  | _, [] => True
  | ssn, pkt :: rest =>
      ¬ pkt.BreaksRun disorderDepth ssn ∧
        KeepsRuns disorderDepth (reassTcp disorderDepth ssn pkt).ssn rest

/-- The stored end of every entry is the position behind its last byte. -/
def TcpFlowData.Ends (flowData : TcpFlowData) : Prop :=
  ∀ q ∈ flowData.head, q.nxtSeq = q.stop

theorem takeWhile_congr {A : Type} {p p' : A → Bool} {list : List A}
    (h : ∀ a ∈ list, p a = p' a) :
    list.takeWhile p = list.takeWhile p' ∧
      list.dropWhile p = list.dropWhile p' := by
  induction list with
  | nil => exact ⟨rfl, rfl⟩
  | cons a rest ih =>
      obtain ⟨htake, hdrop⟩ := ih fun b hb => h b (List.mem_cons_of_mem a hb)
      simp only [List.takeWhile_cons, List.dropWhile_cons,
        h a List.mem_cons_self, htake, hdrop]
      exact ⟨trivial, trivial⟩

section Advance

variable {window : SeqWindow} {queue : List TsegQent} {x : Nat}

theorem advanceRcvNxt_eq {q : TsegQent} (hholds : window.Holds q)
    (hne : q.seq < q.stop) (hend : q.nxtSeq = q.stop) :
    advanceRcvNxt x q = if q.seq = x then q.stop else x := by
  have hshort := window.short
  obtain ⟨hlo, hhi⟩ := hholds
  rw [advanceRcvNxt, hend]
  by_cases heq : q.seq = x
  · subst heq
    have hgt := (seqGt_iff (a := q.stop) (b := q.seq) (by omega)
      (by omega)).mpr hne
    rw [if_pos ⟨rfl, hgt⟩, if_pos rfl]
  · rw [if_neg fun h => heq h.1, if_neg heq]

/-- Following the entries leads to the end of the run. -/
theorem followRcvNxt_eq (hqueue : window.Queue queue)
    (hproper : Segments.Proper TsegQent.seq TsegQent.stop queue)
    (hends : ∀ q ∈ queue, q.nxtSeq = q.stop) :
    followRcvNxt queue x =
      Segments.runEnd TsegQent.seq TsegQent.stop x queue := by
  induction queue generalizing x with
  | nil => rfl
  | cons q rest ih =>
      have hadvance := advanceRcvNxt_eq (x := x)
        (hqueue.inside q List.mem_cons_self) (hproper q List.mem_cons_self)
        (hends q List.mem_cons_self)
      rw [followRcvNxt, Segments.runEnd, hadvance]
      split
      · exact ih (hqueue.sublist (List.sublist_cons_self q rest))
          (hproper.sublist (List.sublist_cons_self q rest))
          fun other hmem => hends other (List.mem_cons_of_mem q hmem)
      · rfl

/-- Entries that start behind `x` do not move it. -/
theorem foldl_advanceRcvNxt_of_lt (h : ∀ q ∈ queue, x < q.seq) :
    queue.foldl advanceRcvNxt x = x := by
  induction queue with
  | nil => rfl
  | cons q rest ih =>
      have hgap : q.seq ≠ x := Nat.ne_of_gt (h q List.mem_cons_self)
      rw [List.foldl_cons, advanceRcvNxt, if_neg fun hq => hgap hq.1]
      exact ih fun other hmem => h other (List.mem_cons_of_mem q hmem)

theorem foldl_advanceRcvNxt_eq (hqueue : window.Queue queue)
    (hproper : Segments.Proper TsegQent.seq TsegQent.stop queue)
    (hends : ∀ q ∈ queue, q.nxtSeq = q.stop) (hx : ∀ q ∈ queue, x ≤ q.seq) :
    queue.foldl advanceRcvNxt x =
      Segments.runEnd TsegQent.seq TsegQent.stop x queue := by
  induction queue generalizing x with
  | nil => rfl
  | cons q rest ih =>
      obtain ⟨hfirst, _⟩ := List.pairwise_cons.mp hqueue.ordered
      have hne := hproper q List.mem_cons_self
      have hle := hx q List.mem_cons_self
      rw [List.foldl_cons, Segments.runEnd,
        advanceRcvNxt_eq (hqueue.inside q List.mem_cons_self) hne
          (hends q List.mem_cons_self)]
      split
      · exact ih (hqueue.sublist (List.sublist_cons_self q rest))
          (hproper.sublist (List.sublist_cons_self q rest))
          (fun other hmem => hends other (List.mem_cons_of_mem q hmem)) hfirst
      · refine foldl_advanceRcvNxt_of_lt fun other hmem => ?_
        have hnext := hfirst other hmem
        omega

end Advance

section Tracks

variable {window : SeqWindow} {disorderDepth : Nat} {flowData : TcpFlowData}

/-- No entry of an ordered queue starts before the first one. -/
theorem SeqWindow.Queue.first_le {q : TsegQent} {rest : List TsegQent}
    (hqueue : window.Queue (q :: rest)) :
    ∀ other ∈ q :: rest, q.seq ≤ other.seq := by
  intro other hmem
  rcases List.mem_cons.mp hmem with rfl | hmem
  · exact Nat.le_refl _
  · exact Nat.le_trans (Nat.le_add_right _ _)
      ((List.pairwise_cons.mp hqueue.ordered).1 other hmem)

theorem runEndOf_endsAt {q : TsegQent} {rest : List TsegQent}
    (hqueue : window.Queue (q :: rest))
    (hproper : Segments.Proper TsegQent.seq TsegQent.stop (q :: rest)) :
    Segments.EndsAt TsegQent.seq TsegQent.stop (q :: rest) q.seq
      (runEndOf (q :: rest)) :=
  Segments.runEnd_endsAt hqueue.ordered hproper hqueue.first_le

theorem sendReverseTcpflow_run
    (hsound : flowData.Sound window disorderDepth) (hends : flowData.Ends)
    (hrun : flowData.rcvNxt = runEndOf flowData.head)
    (hsome : flowData.head ≠ []) :
    (sendReverseTcpflow flowData (runEndOf flowData.head)).2 =
        runOf flowData.head ∧
      (sendReverseTcpflow flowData (runEndOf flowData.head)).1.head =
        behindRun flowData.head := by
  obtain ⟨hkept, hsent⟩ :=
    sendReverseTcpflow_eq flowData (runEndOf flowData.head)
  have hack : toInt (sub64 (runEndOf flowData.head) flowData.rcvNxt) = 0 := by
    rw [hrun, sub64_self]
    rfl
  have hsame : ∀ q ∈ flowData.head, decide (q.nxtSeq ≤ flowData.rcvNxt) =
      decide (q.stop ≤ runEndOf flowData.head) := by
    intro q hq
    rw [hends q hq, hrun]
  obtain ⟨htake, hdrop⟩ := takeWhile_congr hsame
  rw [if_pos hack, htake] at hsent
  rw [if_pos hack, hdrop] at hkept
  have hqueue := hsound.queue
  have hproper := hsound.proper
  cases hhead : flowData.head with
  | nil => exact absurd hhead hsome
  | cons q rest =>
      rw [hhead] at hqueue hproper hsent hkept
      rw [hsent, hkept]
      exact ⟨(Segments.run_eq_takeWhile hqueue.ordered hproper
          hqueue.first_le).symm,
        (Segments.behind_eq_dropWhile hqueue.ordered hproper
          hqueue.first_le).symm⟩

/-- It is enough that the positions from the first entry to `rcv_nxt` are held
and `rcv_nxt` is not. -/
theorem TcpFlowData.tracks_iff (hsound : flowData.Sound window disorderDepth)
    (hends : flowData.Ends) :
    flowData.Tracks ↔ ∀ q rest, flowData.head = q :: rest →
      Segments.EndsAt TsegQent.seq TsegQent.stop flowData.head q.seq
        flowData.rcvNxt := by
  have hqueue := hsound.queue
  have hproper := hsound.proper
  constructor
  · intro htracks q rest hhead
    rw [htracks.rcvNxt (by simp [hhead])]
    rw [hhead] at hqueue hproper ⊢
    exact runEndOf_endsAt hqueue hproper
  · intro hend
    have hrun : flowData.head ≠ [] →
        flowData.rcvNxt = runEndOf flowData.head := by
      intro hsome
      obtain ⟨q, rest, hhead⟩ := List.exists_cons_of_ne_nil hsome
      have hrcv := hend q rest hhead
      rw [hhead] at hqueue hproper hrcv ⊢
      exact hrcv.unique (runEndOf_endsAt hqueue hproper)
    exact ⟨hrun,
      fun hsome => (sendReverseTcpflow_run hsound hends (hrun hsome) hsome).1,
      fun hsome => (sendReverseTcpflow_run hsound hends (hrun hsome) hsome).2⟩

theorem TcpFlowData.Tracks.of_empty (hhead : flowData.head = []) :
    flowData.Tracks :=
  ⟨fun hsome => absurd hhead hsome, fun hsome => absurd hhead hsome,
    fun hsome => absurd hhead hsome⟩

end Tracks

end Barley
