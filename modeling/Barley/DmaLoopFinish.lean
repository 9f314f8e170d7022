/-
How the loop test ends.  Some step always leads on, and what remains to be done
shrinks with it, until all packets are received.
-/
import Barley.DmaLoopLaw

namespace Barley

section Finish

variable {args : DmaLoopArgs} {drv : PciDriver} {s s' : DmaLoopState}

theorem DmaLoopReachable.trans {start : DmaLoopState}
    (h : DmaLoopReachable args drv start s)
    (h' : DmaLoopReachable args drv s s') :
    DmaLoopReachable args drv start s' := by
  induction h' with
  | start => exact h
  | step _ hstep ih => exact ih.step hstep

def DmaTxOp.phase : DmaTxOp → Nat
  | .check => 0
  | .second => 1
  | .publish => 2

def DmaRxOp.phase : DmaRxOp → Nat
  | .check => 0
  | .publish => 1

/-- How far the core is with its bytes; while it polls, how often it has
slept. -/
def DmaLoopOp.phase (cnt : Nat) : DmaLoopOp → Nat
  | .poll => min cnt 10
  | .room _ => 11
  | .recvFirst _ => 12
  | .recvSecond _ => 13
  | .sendFirst _ => 14
  | .sendSecond _ => 15
  | .storeRidx _ => 16
  | .storeWidx => 17
  | .stopped => 0

/-- What remains to be done. -/
def DmaLoopState.remaining (args : DmaLoopArgs) (s : DmaLoopState) : Nat :=
  (3 * s.txRemain - s.txOp.phase) + (2 * s.rxRemain - s.rxOp.phase) +
    (18 * (args.entries * args.pktLen - s.rx.widx) - s.op.phase s.cnt)

/-- A step that brings the test closer to its end. -/
def DmaLoopState.Progresses (args : DmaLoopArgs) (drv : PciDriver)
    (s : DmaLoopState) : Prop :=
  ∃ s', DmaLoopStep args drv s s' ∧ s'.op ≠ .stopped ∧
    s'.remaining args < s.remaining args

theorem DmaLoopInv.sent_le (h : DmaLoopInv args drv s) :
    s.sent.length ≤ args.entries * args.pktLen := by
  rw [h.length_sent]
  exact Nat.mul_le_mul_right _ (Nat.sub_le _ _)

/-- The thread that sends goes on when it has begun. -/
theorem DmaLoopInv.tx_progresses (h : DmaLoopInv args drv s)
    (hrun : s.op ≠ .stopped) (hop : s.txOp ≠ .check) :
    s.Progresses args drv := by
  have hok := h.txOk
  cases htx : s.txOp with
  | check => exact absurd htx hop
  | second =>
      rw [htx] at hok
      cases hok with
      | second hremain hroom hsplit hfirst =>
          refine ⟨_, .txSecond htx, hrun, ?_⟩
          simp only [DmaLoopState.remaining, DmaLoopState.txSecond, htx,
            DmaTxOp.phase]
          omega
  | publish =>
      rw [htx] at hok
      cases hok with
      | publish hremain hroom hall =>
          refine ⟨_, .txPublish htx, hrun, ?_⟩
          simp only [DmaLoopState.remaining, DmaLoopState.txPublish, htx,
            DmaTxOp.phase]
          omega

/-- So does the thread that receives. -/
theorem DmaLoopInv.rx_progresses (h : DmaLoopInv args drv s)
    (hrun : s.op ≠ .stopped) (hop : s.rxOp ≠ .check) :
    s.Progresses args drv := by
  have hok := h.rxOk
  cases hrx : s.rxOp with
  | check => exact absurd hrx hop
  | publish =>
      rw [hrx] at hok
      cases hok with
      | publish hremain havail hlength =>
          refine ⟨_, .rxPublish hrx, hrun, ?_⟩
          simp only [DmaLoopState.remaining, DmaLoopState.rxPublish, hrx,
            DmaRxOp.phase]
          omega

/-- A packet that is there is read. -/
theorem DmaLoopInv.read_progresses (h : DmaLoopInv args drv s)
    (hrun : s.op ≠ .stopped) (hop : s.rxOp = .check)
    (hremain : 0 < s.rxRemain)
    (havail : s.rx.ridx + args.pktLen ≤ s.rx.widx) :
    s.Progresses args drv := by
  have hsent := h.rxWidx_le_sent
  have hlt := h.sent_lt
  refine ⟨_, .rxRead hop hremain ?_, hrun, ?_⟩
  · rw [sub64_eq h.rxRidx_le (by omega)]
    omega
  · simp only [DmaLoopState.remaining, DmaLoopState.rxRead, hop,
      DmaRxOp.phase]
    omega

/-- A core that has room moves its bytes. -/
theorem DmaLoopInv.core_progresses (h : DmaLoopInv args drv s)
    (hpoll : s.op ≠ .poll) (hroom : ∀ txLen, s.op ≠ .room txLen)
    (hrun : s.op ≠ .stopped) : s.Progresses args drv := by
  have hle := h.sent_le
  have hok := h.coreOk
  cases hop : s.op with
  | poll => exact absurd hop hpoll
  | room txLen => exact absurd hop (hroom txLen)
  | stopped => exact absurd hop hrun
  | recvFirst txLen =>
      rw [hop] at hok
      cases hok with
      | recvFirst hgranted =>
          have hpos := hgranted.chosen.pos
          have havail := hgranted.chosen.avail
          refine ⟨_, .recvFirst hop, ?_, ?_⟩
          · simp only [DmaLoopState.recvFirst]
            split <;> exact DmaLoopOp.noConfusion
          · simp only [DmaLoopState.remaining, DmaLoopState.recvFirst, hop]
            split <;> simp only [DmaLoopOp.phase] <;> omega
  | recvSecond txLen =>
      rw [hop] at hok
      cases hok with
      | recvSecond hgranted hsplit htemp =>
          have hpos := hgranted.chosen.pos
          have havail := hgranted.chosen.avail
          refine ⟨_, .recvSecond hop, DmaLoopOp.noConfusion, ?_⟩
          simp only [DmaLoopState.remaining, DmaLoopState.recvSecond, hop,
            DmaLoopOp.phase]
          omega
  | sendFirst txLen =>
      rw [hop] at hok
      cases hok with
      | sendFirst hgranted htemp =>
          have hpos := hgranted.chosen.pos
          have havail := hgranted.chosen.avail
          refine ⟨_, .sendFirst hop, ?_, ?_⟩
          · simp only [DmaLoopState.sendFirst]
            split <;> exact DmaLoopOp.noConfusion
          · simp only [DmaLoopState.remaining, DmaLoopState.sendFirst, hop]
            split <;> simp only [DmaLoopOp.phase] <;> omega
  | sendSecond txLen =>
      rw [hop] at hok
      cases hok with
      | sendSecond hgranted htemp hsplit hfirst =>
          have hpos := hgranted.chosen.pos
          have havail := hgranted.chosen.avail
          refine ⟨_, .sendSecond hop, DmaLoopOp.noConfusion, ?_⟩
          simp only [DmaLoopState.remaining, DmaLoopState.sendSecond, hop,
            DmaLoopOp.phase]
          omega
  | storeRidx txLen =>
      rw [hop] at hok
      cases hok with
      | storeRidx hgranted hall =>
          have hpos := hgranted.chosen.pos
          have havail := hgranted.chosen.avail
          refine ⟨_, .storeRidx hop, DmaLoopOp.noConfusion, ?_⟩
          simp only [DmaLoopState.remaining, DmaLoopState.storeRidx, hop,
            DmaLoopOp.phase]
          omega
  | storeWidx =>
      rw [hop] at hok
      cases hok with
      | storeWidx hpos hridx htxRidx hrxWidx havail hfree hall =>
          refine ⟨_, .storeWidx hop, DmaLoopOp.noConfusion, ?_⟩
          simp only [DmaLoopState.remaining, DmaLoopState.storeWidx, hop,
            DmaLoopOp.phase, hrxWidx]
          omega

/-- A core that waits for room gets it, or a packet can be read. -/
theorem DmaLoopInv.room_progresses (h : DmaLoopInv args drv s)
    (hfits : args.pktLen + drv.buffMax ≤ frcDmaLoopBuffSize + 1)
    {txLen : Nat} (hop : s.op = .room txLen) (hrx : s.rxOp = .check)
    (hremain : 0 < s.rxRemain) : s.Progresses args drv := by
  have hle := h.sent_le
  have hridx := h.rxRidx_le
  have hlt := h.sent_lt
  have hsent := h.rxWidx_le_sent
  have hok := h.coreOk
  rw [hop] at hok
  cases hok with
  | room hchosen =>
      have hpos := hchosen.pos
      have hmax := hchosen.le
      have havail := hchosen.avail
      by_cases hfree : s.rx.widx + txLen ≤ s.rx.ridx + frcDmaLoopBuffSize
      · have hcheck : sub64 s.rxWidx s.rx.ridx ≤
            sub64 frcDmaLoopBuffSize txLen := by
          have hwidx := hchosen.idle.rxWidx
          have hpkt := args.pktLen_le
          have hused : sub64 s.rxWidx s.rx.ridx = s.rx.widx - s.rx.ridx := by
            rw [hwidx, sub64_eq hridx (by omega)]
          have hsize : sub64 frcDmaLoopBuffSize txLen =
              frcDmaLoopBuffSize - txLen := sub64_eq (by omega) (by decide)
          rw [hused, hsize]
          omega
        refine ⟨_, .room hop, ?_, ?_⟩
        · simp only [DmaLoopState.room, if_pos hcheck]
          exact DmaLoopOp.noConfusion
        · simp only [DmaLoopState.remaining, DmaLoopState.room,
            if_pos hcheck, hop, DmaLoopOp.phase]
          omega
      · have hrun : s.op ≠ .stopped := by
          rw [hop]
          exact DmaLoopOp.noConfusion
        exact h.read_progresses hrun hrx hremain (by omega)

/-- A core that polls finds bytes, or a packet can be read, or one can be
sent. -/
theorem DmaLoopInv.poll_progresses (h : DmaLoopInv args drv s)
    (hlt : args.pktLen < frcDmaLoopBuffSize)
    (hop : s.op = .poll) (htx : s.txOp = .check) (hrx : s.rxOp = .check)
    (hremain : 0 < s.rxRemain) : s.Progresses args drv := by
  have hle := h.sent_le
  have hridx := h.rxRidx_le
  have hsent := h.rxWidx_le_sent
  have hfew := h.sent_lt
  have hrun : s.op ≠ .stopped := by
    rw [hop]
    exact DmaLoopOp.noConfusion
  have hok := h.coreOk
  rw [hop] at hok
  cases hok with
  | poll hidle =>
      have hlen : sub64 s.tx.widx s.txRidx = s.sent.length - s.rx.widx := by
        rw [h.txWidx, hidle.txRidx, sub64_eq hsent hfew]
      by_cases hnone : s.sent.length - s.rx.widx = 0
      · -- all bytes that were sent are in the second ring
        by_cases havail : s.rx.ridx + args.pktLen ≤ s.rx.widx
        · exact h.read_progresses hrun hrx hremain havail
        · have htxRemain : 0 < s.txRemain := by
            have hrxRemain := h.rxRemain_le
            have hlength := h.length_sent
            have hread := h.rxRidx
            by_contra hzero
            have hall : args.entries - s.rxRemain + 1 ≤
                args.entries - s.txRemain := by omega
            have hmul := Nat.mul_le_mul_right args.pktLen hall
            rw [Nat.add_mul, Nat.one_mul] at hmul
            omega
          have hroom : sub64 s.tx.widx s.tx.ridx <
              frcDmaLoopBuffSize - args.pktLen := by
            rw [h.txWidx, hidle.ridx, sub64_eq hsent hfew]
            omega
          refine ⟨_, .txFirst htx htxRemain hroom, hrun, ?_⟩
          simp only [DmaLoopState.remaining, DmaLoopState.txFirst, htx]
          split <;> simp only [DmaTxOp.phase] <;> omega
      · refine ⟨_, .poll hop, ?_, ?_⟩
        · simp only [DmaLoopState.poll, hlen, if_neg hnone]
          split
          · exact hrun
          · exact DmaLoopOp.noConfusion
        · simp only [DmaLoopState.remaining, DmaLoopState.poll, hlen,
            if_neg hnone]
          split
          · simp only [hop, DmaLoopOp.phase]
            omega
          · simp only [hop, DmaLoopOp.phase]
            omega

/-- Until all packets are received some step leads on. -/
theorem DmaLoopInv.progresses (h : DmaLoopInv args drv s)
    (hlt : args.pktLen < frcDmaLoopBuffSize)
    (hfits : args.pktLen + drv.buffMax ≤ frcDmaLoopBuffSize + 1)
    (hrun : s.op ≠ .stopped) (hremain : 0 < s.rxRemain) :
    s.Progresses args drv := by
  by_cases htx : s.txOp = .check
  · by_cases hrx : s.rxOp = .check
    · by_cases hpoll : s.op = .poll
      · exact h.poll_progresses hlt hpoll htx hrx hremain
      · by_cases hroom : ∃ txLen, s.op = .room txLen
        · obtain ⟨txLen, hop⟩ := hroom
          exact h.room_progresses hfits hop hrx hremain
        · exact h.core_progresses hpoll
            (fun txLen hop => hroom ⟨txLen, hop⟩) hrun
    · exact h.rx_progresses hrun hrx
  · exact h.tx_progresses hrun htx

theorem DmaLoopInv.finishes (h : DmaLoopInv args drv s)
    (hlt : args.pktLen < frcDmaLoopBuffSize)
    (hfits : args.pktLen + drv.buffMax ≤ frcDmaLoopBuffSize + 1)
    (hrun : s.op ≠ .stopped) :
    ∃ s', DmaLoopReachable args drv s s' ∧ s'.rxRemain = 0 := by
  generalize hmeasure : s.remaining args = measure
  induction measure using Nat.strong_induction_on generalizing s with
  | h measure ih =>
      rcases Nat.eq_zero_or_pos s.rxRemain with hnone | hremain
      · exact ⟨s, .start, hnone⟩
      · obtain ⟨next, hstep, hrun', hless⟩ :=
          h.progresses hlt hfits hrun hremain
        obtain ⟨s', hreach, hdone⟩ :=
          ih _ (hmeasure ▸ hless) (h.step hstep) hrun' rfl
        exact ⟨s', (DmaLoopReachable.start.step hstep).trans hreach, hdone⟩

end Finish

/-- In every order of the steps no byte is counted as wrong: what is received is
the begin of what was sent, and all of it when no packet remains. -/
theorem dmaLoop_echoes (args : DmaLoopArgs) (drv : PciDriver)
    {s : DmaLoopState} (hreach : DmaLoopReachable args drv args.start s) :
    s.errBytes = 0 ∧
      s.sent = args.packets (args.entries - s.txRemain) ∧
      s.received <+: s.sent ∧
      (s.rxRemain = 0 → s.received = args.packets args.entries) := by
  have h := hreach.inv (.start args drv)
  refine ⟨h.errBytes_eq, h.sent_eq, ?_, h.received_all⟩
  rw [h.received_eq]
  exact List.take_prefix _ _

/-- Two packets of four bytes, and a driver that moves three bytes at most. -/
def smallTest : DmaLoopArgs := ⟨4, 2, by decide, by decide⟩

def echoDriver : PciDriver := ⟨3, 1, id, by decide, by decide⟩

theorem dmaLoop_echoes_small :
    ∃ s, DmaLoopReachable smallTest echoDriver smallTest.start s ∧
      s.errBytes = 0 ∧
      s.received = [0xa5, 0xa5, 0xa5, 0xa5, 0x5a, 0x5a, 0x5a, 0x5a] := by
  obtain ⟨s, hreach, hdone⟩ := (DmaLoopInv.start smallTest
    echoDriver).finishes (by decide) (by decide)
    DmaLoopOp.noConfusion
  obtain ⟨herr, -, -, hall⟩ := dmaLoop_echoes smallTest echoDriver hreach
  exact ⟨s, hreach, herr, hall hdone⟩

/-- As long as no DMA fails the test can always be brought to its end, with all
packets received, when a packet and the bytes that the core moves at a time fit
into the ring together. -/
theorem dmaLoop_finishes (args : DmaLoopArgs) (drv : PciDriver)
    (hlt : args.pktLen < frcDmaLoopBuffSize)
    (hfits : args.pktLen + drv.buffMax ≤ frcDmaLoopBuffSize + 1)
    {s : DmaLoopState} (hreach : DmaLoopReachable args drv args.start s)
    (hrun : s.op ≠ .stopped) :
    ∃ s', DmaLoopReachable args drv s s' ∧ s'.rxRemain = 0 ∧
      s'.received = args.packets args.entries := by
  have h := hreach.inv (.start args drv)
  obtain ⟨s', hreach', hdone⟩ := h.finishes hlt hfits hrun
  exact ⟨s', hreach', hdone, (hreach'.inv h).received_all hdone⟩

theorem dmaLoop_finishes_small :
    ∃ s, DmaLoopReachable smallTest echoDriver
        (smallTest.start.poll echoDriver) s ∧ s.rxRemain = 0 := by
  obtain ⟨s, hreach, hdone, -⟩ := dmaLoop_finishes smallTest echoDriver
    (by decide) (by decide) (.step .start (.poll rfl))
    (by decide)
  exact ⟨s, hreach, hdone⟩

end Barley
