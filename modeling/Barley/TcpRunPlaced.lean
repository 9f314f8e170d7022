/-
What an acknowledgement and a placed packet make of the gap-free run.  A run is
a range of held positions, so that each case is a comparison of positions before
and after the call.
-/
import Barley.TcpRun

namespace Barley

section Acknowledge

variable {window : SeqWindow} {disorderDepth : Nat} {flowData : TcpFlowData}

/-- Draining leaves `rcv_nxt` at the start of the first entry that is left. -/
theorem drainAcked_rcvNxt {queue : List TsegQent} {flowData : TcpFlowData}
    (hhead : flowData.head = queue) {q : TsegQent} {rest : List TsegQent}
    (hleft : (drainAcked queue flowData).1.head = q :: rest) :
    (drainAcked queue flowData).1.rcvNxt = q.seq := by
  induction queue generalizing flowData with
  | nil =>
      rw [drainAcked, hhead] at hleft
      cases hleft
  | cons first others ih =>
      rw [drainAcked] at hleft ⊢
      split at hleft
      case isTrue hacked =>
        rw [if_pos hacked]
        exact ih (by rw [sendPacket, hhead]; rfl) hleft
      case isFalse hacked =>
        rw [if_neg hacked]
        simp only [hhead] at hleft
        rw [(List.cons.inj hleft).1]

/-- After an acknowledgement `rcv_nxt` is at the end of the run, whatever it was
before. -/
theorem sendReverseTcpflow_tracks
    (hsound : flowData.Sound window disorderDepth)
    (hdepth : disorderDepth < 2 ^ 31) (hends : flowData.Ends) (ackNum : Nat) :
    (sendReverseTcpflow flowData ackNum).1.Ends ∧
      (sendReverseTcpflow flowData ackNum).1.Tracks := by
  have hresult := (sendReverseTcpflow_sound hsound hdepth ackNum).1
  have hsub : ∀ q ∈ (sendReverseTcpflow flowData ackNum).1.head,
      q ∈ flowData.head := by
    rw [(sendReverseTcpflow_eq flowData ackNum).1]
    split
    · exact (List.dropWhile_sublist _).subset
    · exact fun q hq => absurd hq List.not_mem_nil
  have hends' : (sendReverseTcpflow flowData ackNum).1.Ends :=
    fun q hq => hends q (hsub q hq)
  refine ⟨hends', ?_⟩
  by_cases hempty : (sendReverseTcpflow flowData ackNum).1.head = []
  · exact .of_empty hempty
  · rw [TcpFlowData.tracks_iff hresult hends']
    intro q rest hhead
    have hqueue := hresult.queue
    have hproper := hresult.proper
    rw [hhead] at hqueue hproper ⊢
    suffices (sendReverseTcpflow flowData ackNum).1.rcvNxt =
        runEndOf (q :: rest) by
      rw [this]
      exact runEndOf_endsAt hqueue hproper
    have hstored : ∀ other ∈ q :: rest, other.nxtSeq = other.stop :=
      fun other hmem => hends' other (hhead ▸ hmem)
    revert hempty hhead
    unfold sendReverseTcpflow
    split
    · simp only
      split
      · exact fun hempty => absurd rfl hempty
      · intro _ hhead
        simp only at hhead
        rw [drainAcked_rcvNxt rfl hhead, hhead]
        exact foldl_advanceRcvNxt_eq hqueue hproper hstored hqueue.first_le
    · exact fun hempty => absurd rfl hempty

theorem ackReverse_tracks (fwd : TcpFlowData)
    (hsound : flowData.Sound window disorderDepth)
    (hdepth : disorderDepth < 2 ^ 31) (hends : flowData.Ends)
    (htracks : flowData.Tracks) (ackNum : Nat) :
    (ackReverse fwd flowData ackNum).1.Ends ∧
      (ackReverse fwd flowData ackNum).1.Tracks := by
  rw [ackReverse]
  split
  · exact sendReverseTcpflow_tracks hsound hdepth hends ackNum
  · exact ⟨hends, htracks⟩

end Acknowledge

section Spared

variable {queue front back : List TsegQent} {pkt : TcpPacket}
  {sequence dataLength : Nat} {data : Nat → UInt8}

/-- Cutting takes out the entries that stop at or before `stop`. -/
theorem length_cutBefore {stop : Nat}
    (hordered : Segments.Ordered TsegQent.seq TsegQent.stop back)
    (hproper : Segments.Proper TsegQent.seq TsegQent.stop back) :
    (cutBefore stop back).length =
      (back.filter fun q => stop < q.stop).length := by
  induction back with
  | nil => rfl
  | cons q rest ih =>
      obtain ⟨hfirst, hrest⟩ := List.pairwise_cons.mp hordered
      have hproper' := hproper.sublist (List.sublist_cons_self q rest)
      have hne := hproper q List.mem_cons_self
      have hlater : stop < q.stop →
          rest.filter (fun q => stop < q.stop) = rest := by
        intro hlt
        rw [List.filter_eq_self]
        intro other hmem
        have hnext := hfirst other hmem
        have hother := hproper' other hmem
        exact decide_eq_true (by omega)
      rw [cutBefore, List.filter_cons]
      by_cases hapart : stop ≤ q.seq
      · have hlt : stop < q.stop := Nat.lt_of_le_of_lt hapart hne
        simp only [hapart, if_true, hlt, decide_true, hlater hlt]
      · by_cases hpart : stop < q.stop
        · simp only [hapart, if_false, hpart, if_true, decide_true,
            hlater hpart, List.length_cons]
        · simp only [hapart, if_false, hpart, decide_false, Bool.false_eq_true,
            ih hrest hproper']

/-- What is left around the packet are the entries that it spares. -/
theorem Placement.length_spares
    (hplace : Placement queue pkt front back sequence data dataLength)
    (hordered : Segments.Ordered TsegQent.seq TsegQent.stop queue)
    (hproper : Segments.Proper TsegQent.seq TsegQent.stop queue) :
    (front ++ cutBefore pkt.stop back).length = (pkt.spares queue).length := by
  have hsub : back.Sublist queue :=
    hplace.split ▸ List.sublist_append_right front back
  have hfront : front.filter (fun q =>
      ¬ (pkt.sequence < q.seq ∧ q.stop ≤ pkt.stop)) = front := by
    rw [List.filter_eq_self]
    intro q hq
    have hbefore := hplace.before q hq
    exact decide_eq_true fun h => Nat.not_lt.mpr hbefore h.1
  have hback : back.filter (fun q =>
      ¬ (pkt.sequence < q.seq ∧ q.stop ≤ pkt.stop)) =
        back.filter fun q => pkt.stop < q.stop := by
    apply List.filter_congr
    intro q hq
    have hafter := hplace.after q hq
    simp only [hafter, true_and, Nat.not_le]
  rw [TcpPacket.spares, hplace.split, List.filter_append, hfront, hback,
    List.length_append, List.length_append,
    length_cutBefore (hordered.sublist hsub) (hproper.sublist hsub)]

end Spared

section Placed

variable {window : SeqWindow} {disorderDepth : Nat} {flowData : TcpFlowData}
  {pkt : TcpPacket} {front back : List TsegQent} {sequence dataLength : Nat}
  {data : Nat → UInt8}
  (hplace : Placement flowData.head pkt front back sequence data dataLength)

include hplace

theorem Placement.trim_eq (hqueue : window.Queue flowData.head)
    (hadmits : window.Admits pkt) (tsegqeLen : Nat) :
    add64 sequence dataLength = pkt.stop ∧
      (trimSucceeding pkt.stop back tsegqeLen).1 = cutBefore pkt.stop back := by
  have hbelow := window.below
  have hlo := hadmits.lo
  have hhi : pkt.stop ≤ window.hi := hadmits.hi
  have heq := hplace.stop
  have hle : pkt.sequence ≤ pkt.stop := Nat.le_add_right _ _
  refine ⟨?_, trimSucceeding_fst (Nat.le_trans hlo hle) hhi
    (hqueue.sublist (hplace.split ▸ List.sublist_append_right front back)) _⟩
  rw [add64_eq (by omega)]
  exact heq

/-- A `SYN` leaves what is around it, and `rcv_nxt` if that is not empty. -/
theorem Placement.syn_flow (hqueue : window.Queue flowData.head)
    (hadmits : window.Admits pkt) (hsyn : pkt.has thSyn = true) :
    (placeSegment disorderDepth flowData pkt front back sequence data
        dataLength).2.1.head = front ++ cutBefore pkt.stop back ∧
      (front ++ cutBefore pkt.stop back ≠ [] →
        (placeSegment disorderDepth flowData pkt front back sequence data
          dataLength).2.1.rcvNxt = flowData.rcvNxt) := by
  obtain ⟨hstop, htrim⟩ := hplace.trim_eq hqueue hadmits flowData.tsegqeLen
  simp only [placeSegment, hstop, htrim, hsyn, if_true]
  exact ⟨trivial, fun hsome => if_neg hsome⟩

/-- Another packet is queued, with `rcv_nxt` moved when it starts there; or
everything is sent. -/
theorem Placement.queued_flow (hsound : flowData.Sound window disorderDepth)
    (hadmits : window.Admits pkt) (hdepth : disorderDepth < 2 ^ 31)
    (hsyn : pkt.has thSyn = false) (hne : 0 < pkt.dataLength) :
    (disorderDepth ≤ (pkt.spares flowData.head).length + 1 ∧
      (placeSegment disorderDepth flowData pkt front back sequence data
        dataLength).2.1.head = []) ∨
    ((pkt.spares flowData.head).length + 1 < disorderDepth ∧
      (placeSegment disorderDepth flowData pkt front back sequence data
        dataLength).2.1.head =
          front ++ pkt.entry sequence data dataLength pkt.stop ::
            cutBefore pkt.stop back ∧
      (placeSegment disorderDepth flowData pkt front back sequence data
        dataLength).2.1.rcvNxt =
          if pkt.spares flowData.head = [] then pkt.stop
          else if sequence = flowData.rcvNxt then
            followRcvNxt (cutBefore pkt.stop back) pkt.stop
          else flowData.rcvNxt) := by
  have hqueue := hsound.queue
  have hshort := hsound.short
  have hwindow := window.short
  have hpos := hplace.nonempty hne
  have hstart := hplace.start
  have hend := hplace.stop
  have hhi : pkt.stop ≤ window.hi := hadmits.hi
  have hlo := hadmits.lo
  obtain ⟨hstop, htrim⟩ := hplace.trim_eq hqueue hadmits flowData.tsegqeLen
  have hlength := hplace.length_spares hqueue.ordered hsound.proper
  have hcount : (trimSucceeding pkt.stop back flowData.tsegqeLen).2 + 1 =
      (pkt.spares flowData.head).length + 1 := by
    have hcounted := hsound.counted
    rw [hplace.split, List.length_append] at hcounted hshort
    have hsnd := trimSucceeding_snd pkt.stop back
      (by omega : back.length ≤ flowData.tsegqeLen) (by omega)
    rw [htrim] at hsnd
    rw [← hlength, List.length_append]
    omega
  have hmod : ((pkt.spares flowData.head).length + 1) % 2 ^ 32 =
      (pkt.spares flowData.head).length + 1 := by
    have hle : (pkt.spares flowData.head).length ≤ flowData.head.length :=
      List.length_filter_le _ _
    exact Nat.mod_eq_of_lt (by omega)
  have hempty : front ++ cutBefore pkt.stop back = [] ↔
      pkt.spares flowData.head = [] := by
    rw [← List.length_eq_zero_iff, hlength, List.length_eq_zero_iff]
  have hgt : ∀ {x}, sequence = x → seqGt pkt.stop x = true := by
    rintro x rfl
    exact (seqGt_iff (by omega) (by omega)).mpr (by omega)
  simp only [placeSegment, hstop, htrim, hsyn, hcount, hmod, hempty,
    Bool.false_eq_true, if_false]
  by_cases hroom : disorderDepth ≤ (pkt.spares flowData.head).length + 1
  · left
    rw [if_pos hroom]
    exact ⟨hroom, rfl⟩
  · right
    rw [if_neg hroom]
    refine ⟨Nat.not_le.mp hroom, ?_⟩
    by_cases hnone : pkt.spares flowData.head = []
    · have hapart : sequence ≠ pkt.stop := by omega
      simp only [hnone, if_true, if_neg hapart]
      exact ⟨rfl, trivial⟩
    · simp only [hnone, if_false]
      by_cases hnext : sequence = flowData.rcvNxt
      · simp only [if_pos hnext, hgt hnext, if_true]
        exact ⟨rfl, trivial⟩
      · simp only [if_neg hnext]
        exact ⟨rfl, trivial⟩

/-- An entry that starts behind the start of the packet comes after it. -/
theorem Placement.mem_back {q : TsegQent} (hq : q ∈ flowData.head)
    (hafter : pkt.sequence < q.seq) : q ∈ back := by
  rw [hplace.split] at hq
  rcases List.mem_append.mp hq with hq | hq
  · exact absurd hafter (Nat.not_lt.mpr (hplace.before q hq))
  · exact hq

/-- Without an entry before it the whole packet is placed. -/
theorem Placement.start_eq (hfront : front = []) :
    sequence = pkt.sequence := by
  refine Nat.le_antisymm (Nat.not_lt.mp fun hlt => ?_) hplace.start
  have hheld := hplace.carried pkt.sequence (Nat.le_refl _) hlt
  rw [hfront] at hheld
  exact Segments.covers_nil hheld

/-- A packet that starts within the run, or at its end, is not cut behind it. -/
theorem Placement.start_le {x : Nat}
    (hrun : Segments.EndsAt TsegQent.seq TsegQent.stop flowData.head x
      flowData.rcvNxt) (hle : pkt.sequence ≤ flowData.rcvNxt) :
    sequence ≤ flowData.rcvNxt := by
  refine Nat.not_lt.mp fun hlt => hrun.free ?_
  exact (hplace.held_queue flowData.rcvNxt).mpr
    (.inl (hplace.carried flowData.rcvNxt hle hlt))

/-- The placed part starts within the run if an entry of the run comes after
it. -/
theorem Placement.later_iff {first : TsegQent}
    (hqueue : window.Queue flowData.head)
    (hrun : Segments.EndsAt TsegQent.seq TsegQent.stop flowData.head first.seq
      flowData.rcvNxt) (hfirst : first.seq ≤ pkt.sequence) :
    (∃ q ∈ flowData.head, pkt.sequence < q.seq ∧ q.seq < flowData.rcvNxt) ↔
      sequence < flowData.rcvNxt := by
  have hstart := hplace.start
  have hordered := hqueue.ordered
  rw [hplace.split] at hordered
  have hacross := (List.pairwise_append.mp hordered).2.2
  constructor
  · rintro ⟨q, hq, hafter, hbelow⟩
    have hback := hplace.mem_back hq hafter
    refine Nat.lt_of_le_of_lt (Nat.not_lt.mp fun hlt => ?_) hbelow
    obtain ⟨p, hp, -, hover⟩ :=
      hplace.carried q.seq (Nat.le_of_lt hafter) hlt
    have hstop := hacross p hp q hback
    omega
  · intro hlt
    obtain ⟨q, hq, hle, hover⟩ := hrun.covered sequence (by omega) hlt
    have hback : q ∈ back := by
      rw [hplace.split] at hq
      rcases List.mem_append.mp hq with hq | hq
      · have hfree := hplace.free q hq
        omega
      · exact hq
    exact ⟨q, by rw [hplace.split]; exact List.mem_append_right front hback,
      hplace.after q hback, by omega⟩

end Placed

theorem cutBefore_ends {stop : Nat} {back : List TsegQent}
    (h : ∀ q ∈ back, q.nxtSeq = q.stop) :
    ∀ q ∈ cutBefore stop back, q.nxtSeq = q.stop := by
  induction back with
  | nil => exact h
  | cons q rest ih =>
      have hrest := fun other hmem => h other (List.mem_cons_of_mem q hmem)
      rw [cutBefore]
      split
      · exact h
      · split
        case isTrue hpart =>
          intro other hmem
          rcases List.mem_cons.mp hmem with rfl | hmem
          · have hend := h q List.mem_cons_self
            simp only [TsegQent.stop] at hpart hend ⊢
            omega
          · exact hrest other hmem
        case isFalse => exact ih hrest

/-- The entries around a packet keep their stored ends. -/
theorem Placement.ends_around {flowData : TcpFlowData} {pkt : TcpPacket}
    {front back : List TsegQent} {sequence dataLength : Nat}
    {data : Nat → UInt8}
    (hplace : Placement flowData.head pkt front back sequence data dataLength)
    (stop : Nat) (hends : flowData.Ends) :
    ∀ q ∈ front ++ cutBefore stop back, q.nxtSeq = q.stop := by
  have hback : back.Sublist flowData.head :=
    hplace.split ▸ List.sublist_append_right front back
  intro q hq
  rcases List.mem_append.mp hq with hq | hq
  · exact hends q (hplace.split ▸ List.mem_append_left back hq)
  · exact cutBefore_ends
      (fun other hother => hends other (hback.subset hother)) q hq

/-- A queue that spares an entry has a first one. -/
theorem TcpPacket.exists_first {pkt : TcpPacket} {queue : List TsegQent}
    (hspares : pkt.spares queue ≠ []) :
    ∃ first rest, queue = first :: rest := by
  refine List.exists_cons_of_ne_nil fun hnil => hspares ?_
  rw [hnil]
  rfl

section Queued

variable {window : SeqWindow} {disorderDepth : Nat} {flowData : TcpFlowData}
  {pkt : TcpPacket} {front back : List TsegQent} {sequence dataLength : Nat}
  {data : Nat → UInt8}

/-- `rcv_nxt` is behind the first entry. -/
theorem Segments.EndsAt.first_lt {queue : List TsegQent} {first : TsegQent}
    {x : Nat}
    (h : Segments.EndsAt TsegQent.seq TsegQent.stop queue first.seq x)
    (hmem : first ∈ queue) (hne : first.seq < first.stop) : first.seq < x := by
  refine Nat.lt_of_le_of_ne h.le fun heq => h.free ?_
  exact ⟨first, hmem, Nat.le_of_eq heq, heq ▸ hne⟩

/-- The first entry before the packet is the first of the queue. -/
theorem Placement.first_eq {first p : TsegQent} {rest others : List TsegQent}
    (hplace : Placement flowData.head pkt (p :: others) back sequence data
      dataLength) (hhead : flowData.head = first :: rest) : first = p := by
  have heq := hplace.split
  rw [hhead] at heq
  exact (List.cons.inj heq).1

/-- A queue that was all covered has one entry afterwards. -/
theorem Placement.alone_endsAt {queue : List TsegQent}
    (hplace : Placement queue pkt front back sequence data dataLength)
    (hadmits : window.Admits pkt) (hpos : 0 < dataLength) :
    Segments.EndsAt TsegQent.seq TsegQent.stop
      [pkt.entry sequence data dataLength pkt.stop]
      (pkt.entry sequence data dataLength pkt.stop).seq pkt.stop := by
  have hstop := hplace.entry_stop hadmits hpos pkt.stop
  have hproper : (pkt.entry sequence data dataLength pkt.stop).seq ≤
      (pkt.entry sequence data dataLength pkt.stop).stop := Nat.le_add_right _ _
  refine ⟨hstop ▸ hproper, fun x hle hlt => ?_, ?_⟩
  · exact ⟨_, List.mem_cons_self, hle, hstop.symm ▸ hlt⟩
  · rintro ⟨q, hq, -, hlt⟩
    rw [List.mem_singleton.mp hq, hstop] at hlt
    exact Nat.lt_irrefl _ hlt

/-- A packet that starts at `rcv_nxt` continues the run, and what follows it
continues it further. -/
theorem Placement.next_endsAt {first : TsegQent} {others : List TsegQent}
    (hplace : Placement flowData.head pkt (first :: others) back sequence data
      dataLength)
    (hsound : flowData.Sound window disorderDepth) (hends : flowData.Ends)
    (hadmits : window.Admits pkt)
    (hrun : Segments.EndsAt TsegQent.seq TsegQent.stop flowData.head first.seq
      flowData.rcvNxt)
    (hnext : sequence = flowData.rcvNxt) :
    Segments.EndsAt TsegQent.seq TsegQent.stop
      (first :: others ++ pkt.entry sequence data dataLength pkt.stop ::
        cutBefore pkt.stop back) first.seq
      (followRcvNxt (cutBefore pkt.stop back) pkt.stop) := by
  have hqueue := hsound.queue
  have hback : back.Sublist flowData.head :=
    hplace.split ▸ List.sublist_append_right _ back
  have hlo : window.lo ≤ pkt.stop :=
    Nat.le_trans hadmits.lo (Nat.le_add_right _ _)
  obtain ⟨hcut, hcutSeq⟩ := cutBefore_queue hlo (hqueue.sublist hback)
  have hproper := cutBefore_proper pkt.stop (hsound.proper.sublist hback)
  rw [followRcvNxt_eq hcut hproper
    (cutBefore_ends fun q hq => hends q (hback.subset hq))]
  obtain ⟨hle, hcovered, hfree⟩ :=
    Segments.runEnd_endsAt hcut.ordered hproper hcutSeq
  have hheld := hplace.held_placed hqueue hadmits pkt.stop
  have hall := hplace.held_placed_iff hqueue hadmits pkt.stop
  have hstart := hplace.start
  have hstop := hplace.stop
  have hrunLe := hrun.le
  refine ⟨by omega, ?_, ?_⟩
  · intro x hx hlt
    by_cases hold : x < flowData.rcvNxt
    · exact (hall x).mpr (.inl (hrun.covered x hx hold))
    · by_cases hnew : x < pkt.stop
      · exact (hall x).mpr (.inr ⟨by omega, hnew⟩)
      · exact Segments.covers_append.mpr (.inr (Segments.covers_cons.mpr
          (.inr (hcovered x (Nat.not_lt.mp hnew) hlt))))
  · intro hcovers
    rcases (hheld _).mp hcovers with ⟨q, hq, -, hlt⟩ | hin | ⟨hold, hge⟩
    · have hbefore := hplace.free q hq
      omega
    · omega
    · exact hfree ((held_cutBefore (hqueue.sublist hback).ordered).mpr
        ⟨hold, hge⟩)

/-- Behind an entry of the queue, a packet that does not start at `rcv_nxt`
leaves the run as it is unless it reaches over the end of it. -/
theorem Placement.behind_endsAt_iff {first : TsegQent} {others : List TsegQent}
    (hplace : Placement flowData.head pkt (first :: others) back sequence data
      dataLength)
    (hqueue : window.Queue flowData.head) (hadmits : window.Admits pkt)
    (hrun : Segments.EndsAt TsegQent.seq TsegQent.stop flowData.head first.seq
      flowData.rcvNxt)
    (hnext : sequence ≠ flowData.rcvNxt) :
    Segments.EndsAt TsegQent.seq TsegQent.stop
        (first :: others ++ pkt.entry sequence data dataLength pkt.stop ::
          cutBefore pkt.stop back) first.seq flowData.rcvNxt ↔
      ¬ ((∃ q ∈ flowData.head,
        pkt.sequence < q.seq ∧ q.seq < flowData.rcvNxt) ∧
          flowData.rcvNxt < pkt.stop) := by
  have hall := hplace.held_placed_iff hqueue hadmits pkt.stop
  have hfirst := hplace.before first List.mem_cons_self
  have hstart := hplace.start
  rw [hplace.later_iff hqueue hrun hfirst]
  constructor
  · rintro hend ⟨hlt, hover⟩
    exact hend.free ((hall _).mpr (.inr ⟨by omega, hover⟩))
  · intro hnot
    refine ⟨hrun.le, fun x hx hlt => (hall x).mpr
      (.inl (hrun.covered x hx hlt)), fun hcovers => ?_⟩
    rcases (hall _).mp hcovers with hold | ⟨hle, hover⟩
    · exact hrun.free hold
    · have hplaced := hplace.start_le hrun hle
      exact hnot ⟨by omega, hover⟩

/-- Before the first entry, the packet has to reach it and not to reach over the
end of the run. -/
theorem Placement.front_endsAt_iff {first : TsegQent} {rest : List TsegQent}
    (hplace : Placement flowData.head pkt [] back sequence data dataLength)
    (hhead : flowData.head = first :: rest)
    (hqueue : window.Queue flowData.head) (hadmits : window.Admits pkt)
    (hrun : Segments.EndsAt TsegQent.seq TsegQent.stop flowData.head first.seq
      flowData.rcvNxt) :
    Segments.EndsAt TsegQent.seq TsegQent.stop
        ([] ++ pkt.entry sequence data dataLength pkt.stop ::
          cutBefore pkt.stop back) pkt.sequence flowData.rcvNxt ↔
      first.seq ≤ pkt.stop ∧ pkt.stop ≤ flowData.rcvNxt := by
  have hall := hplace.held_placed_iff hqueue hadmits pkt.stop
  have hback : flowData.head = back := hplace.split
  have hmem : first ∈ flowData.head := hhead ▸ List.mem_cons_self
  have hfirst := hplace.after first (hback ▸ hmem)
  have hrunLe := hrun.le
  have hqueue' := hqueue
  rw [hhead] at hqueue'
  have hbelow : ∀ x, x < first.seq → ¬ Held flowData.head x := by
    intro x hx
    refine Segments.not_covers_of_le fun q hq => ?_
    exact Nat.lt_of_lt_of_le hx (hqueue'.first_le q (hhead ▸ hq))
  constructor
  · intro hend
    constructor
    · refine Nat.not_lt.mp fun hlt => ?_
      rcases (hall _).mp (hend.covered pkt.stop (Nat.le_add_right _ _)
        (by omega)) with hold | hin
      · exact hbelow pkt.stop hlt hold
      · omega
    · refine Nat.not_lt.mp fun hlt => hend.free ?_
      exact (hall _).mpr (.inr ⟨by omega, hlt⟩)
  · rintro ⟨hreach, hstop⟩
    refine ⟨by omega, fun x hx hlt => (hall x).mpr ?_, fun hcovers => ?_⟩
    · by_cases hold : first.seq ≤ x
      · exact .inl (hrun.covered x hold hlt)
      · exact .inr ⟨hx, by omega⟩
    · rcases (hall _).mp hcovers with hold | hin
      · exact hrun.free hold
      · omega

/-- A placed packet displaces no entry. -/
theorem Placement.breaks_cases
    (hplace : Placement flowData.head pkt front back sequence data dataLength)
    (hbreaks : flowData.Breaks disorderDepth pkt)
    (hsyn : pkt.has thSyn = false) :
    (pkt.spares flowData.head).length + 1 < disorderDepth ∧
      ((∃ first rest, flowData.head = first :: rest ∧
          pkt.stop < first.seq) ∨
        pkt.spares flowData.head ≠ [] ∧ (∃ q ∈ flowData.head,
          pkt.sequence < q.seq ∧ q.seq < flowData.rcvNxt) ∧
            flowData.rcvNxt < pkt.stop) := by
  cases hbreaks with
  | before hhead _ hroom hgap => exact ⟨hroom, .inl ⟨_, _, hhead, hgap⟩⟩
  | across _ hroom _ hspares hstart hstop =>
      exact ⟨hroom, .inr ⟨hspares, hstart, hstop⟩⟩
  | replace _ hdisplaces =>
      obtain ⟨q, hq, _, hbefore, hover, hequal, _⟩ := hdisplaces
      exact absurd ⟨q, hq, hbefore, hover, hequal⟩ hplace.not_displaces
  | synBefore _ hnot => exact absurd (hsyn.symm.trans hnot) Bool.false_ne_true
  | synInside hnot => exact absurd (hsyn.symm.trans hnot) Bool.false_ne_true

/-- A packet that covers the whole queue breaks nothing. -/
theorem Placement.not_breaks_of_covered
    (hplace : Placement flowData.head pkt front back sequence data dataLength)
    (hsyn : pkt.has thSyn = false) (hspares : pkt.spares flowData.head = []) :
    ¬ flowData.Breaks disorderDepth pkt := by
  intro hbreaks
  rcases (hplace.breaks_cases hbreaks hsyn).2 with
    ⟨first, rest, hhead, hgap⟩ | ⟨hsome, _⟩
  · have hkept : first ∈ pkt.spares flowData.head := by
      refine List.mem_filter.mpr ⟨hhead ▸ List.mem_cons_self,
        decide_eq_true fun h => ?_⟩
      have hle : first.seq ≤ first.stop := Nat.le_add_right _ _
      omega
    rw [hspares] at hkept
    exact List.not_mem_nil hkept
  · exact hsome hspares

/-- A packet that is placed before the first entry. -/
theorem Placement.front_tracks_iff {first : TsegQent} {rest : List TsegQent}
    (hplace : Placement flowData.head pkt [] back sequence data dataLength)
    (hhead : flowData.head = first :: rest)
    (hsound : flowData.Sound window disorderDepth)
    (hadmits : window.Admits pkt) (hpos : 0 < dataLength)
    (hnear : isTooFar flowData pkt = false) (hsyn : pkt.has thSyn = false)
    (hroom : (pkt.spares flowData.head).length + 1 < disorderDepth)
    (hspares : pkt.spares flowData.head ≠ [])
    (hrun : Segments.EndsAt TsegQent.seq TsegQent.stop flowData.head first.seq
      flowData.rcvNxt) :
    Segments.EndsAt TsegQent.seq TsegQent.stop
        ([] ++ pkt.entry sequence data dataLength pkt.stop ::
          cutBefore pkt.stop back)
        (pkt.entry sequence data dataLength pkt.stop).seq flowData.rcvNxt ↔
      ¬ flowData.Breaks disorderDepth pkt := by
  have hmem : first ∈ flowData.head := hhead ▸ List.mem_cons_self
  have hsplit : flowData.head = back := hplace.split
  have hfirst := hplace.after first (hsplit ▸ hmem)
  have hlast := hrun.first_lt hmem (hsound.proper first hmem)
  have hentry : (pkt.entry sequence data dataLength pkt.stop).seq =
      pkt.sequence :=
    (hplace.entry_seq hadmits hpos pkt.stop).trans (hplace.start_eq rfl)
  rw [hentry, hplace.front_endsAt_iff hhead hsound.queue hadmits hrun]
  constructor
  · rintro ⟨hreach, hinside⟩ hbreaks
    rcases (hplace.breaks_cases hbreaks hsyn).2 with
      ⟨other, _, heq, hgap⟩ | ⟨_, _, hover⟩
    · rw [hhead] at heq
      rw [(List.cons.inj heq).1] at hreach
      omega
    · omega
  · intro hnot
    refine ⟨Nat.not_lt.mp fun hgap => ?_, Nat.not_lt.mp fun hover => ?_⟩
    · exact hnot (.before hhead hsyn hroom hgap)
    · exact hnot (.across hsyn hroom hnear hspares ⟨first, hmem, hfirst, hlast⟩
        hover)

/-- A packet that is placed behind an entry. -/
theorem Placement.behind_tracks_iff {first : TsegQent} {others : List TsegQent}
    (hplace : Placement flowData.head pkt (first :: others) back sequence data
      dataLength)
    (hsound : flowData.Sound window disorderDepth) (hends : flowData.Ends)
    (hadmits : window.Admits pkt) (hnear : isTooFar flowData pkt = false)
    (hsyn : pkt.has thSyn = false)
    (hroom : (pkt.spares flowData.head).length + 1 < disorderDepth)
    (hspares : pkt.spares flowData.head ≠ [])
    (hrun : Segments.EndsAt TsegQent.seq TsegQent.stop flowData.head first.seq
      flowData.rcvNxt) :
    Segments.EndsAt TsegQent.seq TsegQent.stop
        (first :: others ++ pkt.entry sequence data dataLength pkt.stop ::
          cutBefore pkt.stop back) first.seq
        (if sequence = flowData.rcvNxt then
          followRcvNxt (cutBefore pkt.stop back) pkt.stop
        else flowData.rcvNxt) ↔ ¬ flowData.Breaks disorderDepth pkt := by
  have hqueue := hsound.queue
  have hfirst := hplace.before first List.mem_cons_self
  have hstop : pkt.sequence ≤ pkt.stop := Nat.le_add_right _ _
  have hcases : flowData.Breaks disorderDepth pkt ↔
      (∃ q ∈ flowData.head,
        pkt.sequence < q.seq ∧ q.seq < flowData.rcvNxt) ∧
          flowData.rcvNxt < pkt.stop := by
    constructor
    · intro hbreaks
      rcases (hplace.breaks_cases hbreaks hsyn).2 with
        ⟨other, _, heq, hgap⟩ | ⟨_, hover⟩
      · rw [hplace.split] at heq
        rw [← (List.cons.inj heq).1] at hgap
        omega
      · exact hover
    · rintro ⟨hlater, hover⟩
      exact .across hsyn hroom hnear hspares hlater hover
  rw [hcases]
  by_cases hnext : sequence = flowData.rcvNxt
  · rw [if_pos hnext]
    refine iff_of_true (hplace.next_endsAt hsound hends hadmits hrun hnext) ?_
    rintro ⟨hlater, -⟩
    have hlt := (hplace.later_iff hqueue hrun hfirst).mp hlater
    omega
  · rw [if_neg hnext]
    exact hplace.behind_endsAt_iff hqueue hadmits hrun hnext

/-- The run of a queue whose first entry is known. -/
theorem forall_first_iff {queue others : List TsegQent} {first : TsegQent}
    {x : Nat} (hhead : queue = first :: others) :
    (∀ q rest, queue = q :: rest →
        Segments.EndsAt TsegQent.seq TsegQent.stop queue q.seq x) ↔
      Segments.EndsAt TsegQent.seq TsegQent.stop queue first.seq x := by
  constructor
  · exact fun h => h first others hhead
  · intro h q rest heq
    rw [hhead] at heq
    exact (List.cons.inj heq).1 ▸ h

/-- A packet with data that is no `SYN` is placed. -/
theorem Placement.queued_tracks_iff
    (hplace : Placement flowData.head pkt front back sequence data dataLength)
    (hsound : flowData.Sound window disorderDepth) (hends : flowData.Ends)
    (htracks : flowData.Tracks) (hadmits : window.Admits pkt)
    (hdepth : disorderDepth < 2 ^ 31) (hnear : isTooFar flowData pkt = false)
    (hsyn : pkt.has thSyn = false) (hne : 0 < pkt.dataLength)
    (hresult : (placeSegment disorderDepth flowData pkt front back sequence
      data dataLength).2.1.Sound window disorderDepth) :
    (placeSegment disorderDepth flowData pkt front back sequence data
        dataLength).2.1.Ends ∧
      ((placeSegment disorderDepth flowData pkt front back sequence data
        dataLength).2.1.Tracks ↔ ¬ flowData.Breaks disorderDepth pkt) := by
  have hpos := hplace.nonempty hne
  rcases hplace.queued_flow hsound hadmits hdepth hsyn hne with
    ⟨hfull, hnil⟩ | ⟨hroom, hhead', hrcv⟩
  · refine ⟨fun q hq => ?_, iff_of_true (.of_empty hnil) fun hbreaks => ?_⟩
    · rw [hnil] at hq
      exact absurd hq List.not_mem_nil
    · have hroom := (hplace.breaks_cases hbreaks hsyn).1
      omega
  · have hends' : (placeSegment disorderDepth flowData pkt front back sequence
        data dataLength).2.1.Ends := by
      have haround := hplace.ends_around pkt.stop hends
      intro q hq
      rw [hhead'] at hq
      rcases List.mem_append.mp hq with hq | hq
      · exact haround q (List.mem_append_left _ hq)
      · rcases List.mem_cons.mp hq with rfl | hq
        · exact (hplace.entry_stop hadmits hpos pkt.stop).symm
        · exact haround q (List.mem_append_right _ hq)
    refine ⟨hends', ?_⟩
    rw [TcpFlowData.tracks_iff hresult hends', hhead', hrcv]
    by_cases hspares : pkt.spares flowData.head = []
    · have hnone : front = [] ∧ cutBefore pkt.stop back = [] := by
        rw [← List.append_eq_nil_iff, ← List.length_eq_zero_iff,
          hplace.length_spares hsound.queue.ordered hsound.proper, hspares]
        rfl
      rw [if_pos hspares, hnone.1, hnone.2, List.nil_append]
      exact iff_of_true ((forall_first_iff rfl).mpr
        (hplace.alone_endsAt hadmits hpos))
          (hplace.not_breaks_of_covered hsyn hspares)
    · rw [if_neg hspares]
      obtain ⟨first, rest, hhead⟩ := TcpPacket.exists_first hspares
      have hrun := (TcpFlowData.tracks_iff hsound hends).mp htracks first rest
        hhead
      cases front with
      | nil =>
          have hmem : first ∈ flowData.head := hhead ▸ List.mem_cons_self
          have hsplit : flowData.head = back := hplace.split
          have hfirst := hplace.after first (hsplit ▸ hmem)
          have hseq := hplace.start_eq rfl
          have hrunLe := hrun.le
          rw [if_neg (by omega)]
          exact (forall_first_iff rfl).trans (hplace.front_tracks_iff hhead hsound
            hadmits hpos hnear hsyn hroom hspares hrun)
      | cons p others =>
          obtain rfl := hplace.first_eq hhead
          exact (forall_first_iff rfl).trans (hplace.behind_tracks_iff hsound hends
            hadmits hnear hsyn hroom hspares hrun)

end Queued

end Barley
