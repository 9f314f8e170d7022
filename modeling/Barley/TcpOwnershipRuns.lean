/-
The buffers and the entries of a session over a whole run: packets in both
directions, flushes, and every pattern of failures of the pool, of the blocks
and of the fifo.
-/
import Mathlib.Data.List.Nodup
import Barley.TcpOwnershipLaw

namespace Barley

/-- Something is at one of two places, and there once. -/
def AtOnePlace (held freed : List Nat) (x : Nat) : Prop :=
  (held.count x = 1 ∧ freed.count x = 0) ∨
    (held.count x = 0 ∧ freed.count x = 1)

theorem atOnePlace_of_count {held freed : List Nat} {x : Nat}
    (h : held.count x + freed.count x = 1) : AtOnePlace held freed x := by
  rw [AtOnePlace]
  omega

/-- A session without queued entries before its first packet. -/
structure OwnedRun.Fresh (state : OwnedRun) : Prop where
  entries : state.ssn.entries = []
  log : state.run.log = []
  given : state.given = 0

/-- The buffers of the packets given so far, and no others, are found once;
an entry is found once for each time it was taken, and that is at most once. -/
structure OwnedRun.Accounted (state : OwnedRun) : Prop where
  works : ∀ work, workCount state.ssn.entries state.run.log work =
    (List.range state.given).count work
  qents : ∀ qent, qentCount state.ssn.entries state.run.log qent =
    (qentTakes state.run.log).count qent
  takes : (qentTakes state.run.log).Sublist (List.range state.given)

theorem OwnedRun.Fresh.accounted {state : OwnedRun} (h : state.Fresh) :
    state.Accounted := by
  refine ⟨?_, ?_, ?_⟩
  · intro work
    rw [h.entries, h.log, h.given]
    rfl
  · intro qent
    rw [h.entries, h.log]
    rfl
  · rw [h.log, h.given]
    exact List.Sublist.refl []

theorem OwnedRun.Accounted.step {state : OwnedRun} (h : state.Accounted)
    (disorderDepth : Nat) (op : FlowOp) :
    (state.step disorderDepth op).Accounted := by
  cases op with
  | packet pkt env =>
      have hreceived := received_recovery env disorderDepth state.ssn pkt
        state.given state.given state.run
      obtain ⟨taken, hsub, htakes, hqents⟩ := hreceived.qents
      refine ⟨?_, ?_, ?_⟩
      · intro work
        rw [OwnedRun.step, hreceived.works, h.works, List.range_succ,
          List.count_append]
      · intro qent
        rw [OwnedRun.step, hqents, htakes, h.qents, List.count_append]
      · rw [OwnedRun.step, htakes, List.range_succ]
        exact h.takes.append hsub
  | flush env =>
      have hflush := balanced_flushLock env state.ssn state.run
      refine ⟨?_, ?_, ?_⟩
      · intro work
        rw [OwnedRun.step, hflush.works, h.works]
      · intro qent
        rw [OwnedRun.step, hflush.qents, hflush.takes, h.qents]
      · rw [OwnedRun.step, hflush.takes]
        exact h.takes

theorem OwnedRun.Accounted.run {state : OwnedRun} (h : state.Accounted)
    (disorderDepth : Nat) (ops : List FlowOp) :
    (ops.foldl (OwnedRun.step disorderDepth) state).Accounted := by
  induction ops generalizing state with
  | nil => exact h
  | cons op rest ih => exact ih (h.step disorderDepth op)

/-- After any packets and flushes, the buffer of each packet is either held by
one entry of the two queues or has been freed once, and each entry that was
taken is either linked once or has been given back once. -/
theorem ownedRun_atOnePlace (disorderDepth : Nat) (start : OwnedRun)
    (hstart : start.Fresh) (ops : List FlowOp) :
    let state := ops.foldl (OwnedRun.step disorderDepth) start
    (∀ work < state.given,
      AtOnePlace (state.ssn.entries.map OwnedQent.work)
        (workFrees state.run.log) work) ∧
    (∀ qent ∈ qentTakes state.run.log,
      AtOnePlace (state.ssn.entries.map OwnedQent.qent)
        (qentFrees state.run.log) qent) := by
  intro state
  have haccounted : state.Accounted :=
    hstart.accounted.run disorderDepth ops
  refine ⟨?_, ?_⟩
  · intro work hwork
    refine atOnePlace_of_count ((haccounted.works work).trans ?_)
    exact List.count_eq_one_of_mem List.nodup_range (List.mem_range.2 hwork)
  · intro qent hqent
    refine atOnePlace_of_count ((haccounted.qents qent).trans ?_)
    exact List.count_eq_one_of_mem
      (haccounted.takes.nodup List.nodup_range) hqent

/-- A new session, its flows linked to each other. -/
def newOwnedRun : OwnedRun where
  ssn :=
    { seq := 100
      ackSeq := 0
      positiveData := ⟨0, [], 0, true⟩
      negativeData := ⟨0, [], 0, true⟩ }
  run := ⟨newSubmitSsn, []⟩
  given := 0

/-- Ten bytes of payload at the given sequence number. -/
def tenBytes (seq : Nat) : IpTcpPacket where
  protocol := 0x06
  totLen := 50
  ihl := 5
  doff := 5
  seq := seq
  ackSeq := 0
  thFlags := 0x10
  data := fun _ => 0
  direction := .positive
  allocOk := true

/-- A segment, its retransmission and the next one, and then a flush during
which the fifo refuses an entry. -/
def retransmitted : List FlowOp :=
  let env := fun qent : Nat =>
    if qent = 0 then ⟨some 4096, .success, none, .success⟩
    else ⟨none, .success, none, .nospace⟩
  [.packet (tenBytes 100) env, .packet (tenBytes 100) env,
    .packet (tenBytes 110) env, .flush env]

theorem ownedRun_atOnePlace_retransmitted :
    newOwnedRun.Fresh ∧
    ∀ work < 3,
      AtOnePlace
        ((retransmitted.foldl (OwnedRun.step 128) newOwnedRun).ssn.entries.map
          OwnedQent.work)
        (workFrees (retransmitted.foldl (OwnedRun.step 128)
          newOwnedRun).run.log) work := by
  have hfresh : newOwnedRun.Fresh := ⟨rfl, rfl, rfl⟩
  exact ⟨hfresh, (ownedRun_atOnePlace 128 newOwnedRun hfresh retransmitted).1⟩

example :
    workFrees (retransmitted.foldl (OwnedRun.step 128) newOwnedRun).run.log =
      [0, 1, 2] := by
  decide +kernel

end Barley
