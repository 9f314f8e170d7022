/-
What every state of the loop test keeps, whatever the order of the steps of the
two threads and of the core: both rings hold their part of the bytes that were
sent, and what the core moves is the next part.
-/
import Barley.DmaLoop

namespace Barley

theorem frcDmaLoopBuffSize_pos : 0 < frcDmaLoopBuffSize := by
  decide

theorem dmaLoopLen1_le {idx len : Nat} : dmaLoopLen1 idx len ≤ len :=
  Ring.firstPiece_le

section Packets

variable (args : DmaLoopArgs)

/-- The bytes of the first packets. -/
def DmaLoopArgs.packets (count : Nat) : List UInt8 :=
  (List.range count).flatMap fun k => args.packet (args.entries - k)

theorem DmaLoopArgs.length_packet (remain : Nat) :
    (args.packet remain).length = args.pktLen :=
  List.length_replicate

theorem DmaLoopArgs.packets_succ (count : Nat) :
    args.packets (count + 1) =
      args.packets count ++ args.packet (args.entries - count) := by
  simp only [DmaLoopArgs.packets, List.range_succ, List.flatMap_append,
    List.flatMap_singleton]

theorem DmaLoopArgs.length_packets (count : Nat) :
    (args.packets count).length = count * args.pktLen := by
  induction count with
  | zero => rw [Nat.zero_mul]; rfl
  | succ count ih =>
      rw [args.packets_succ, List.length_append, ih, args.length_packet,
        Nat.succ_mul]

theorem DmaLoopArgs.packets_prefix {first count : Nat} (h : first ≤ count) :
    args.packets first <+: args.packets count := by
  induction h with
  | refl => exact List.prefix_refl _
  | step _ ih =>
      rw [args.packets_succ]
      exact ih.trans (List.prefix_append _ _)

/-- A packet among the others. -/
theorem DmaLoopArgs.packets_get {count k : Nat} (hk : k < count) :
    ((args.packets count).drop (k * args.pktLen)).take args.pktLen =
      args.packet (args.entries - k) := by
  induction count with
  | zero => exact absurd hk (Nat.not_lt_zero k)
  | succ count ih =>
      have hlen := args.length_packets count
      have hpacket := args.length_packet (args.entries - count)
      rw [args.packets_succ]
      rcases Nat.lt_succ_iff_lt_or_eq.mp hk with hlt | rfl
      · have hle := Nat.mul_le_mul_right args.pktLen hlt
        rw [Nat.succ_mul] at hle
        rw [List.drop_append_of_le_length (by omega),
          List.take_append_of_le_length (by rw [List.length_drop]; omega)]
        exact ih hlt
      · rw [← hlen, List.drop_left', List.take_of_length_le]
        · omega
        · rfl

/-- The counters of a test do not run over. -/
theorem DmaLoopArgs.packets_lt {count : Nat} (hcount : count ≤ args.entries) :
    count * args.pktLen < 2 ^ 64 := by
  have hentries := args.entries_lt
  have hlen := args.pktLen_le
  have hle := Nat.mul_le_mul (Nat.le_trans hcount (Nat.le_of_lt hentries)) hlen
  exact Nat.lt_of_le_of_lt hle (by decide)

end Packets

namespace DmaLoopState

/-- The core and the host agree on the indexes. -/
structure Idle (s : DmaLoopState) : Prop where
  ridx : s.tx.ridx = s.rx.widx
  txRidx : s.txRidx = s.rx.widx
  rxWidx : s.rxWidx = s.rx.widx

/-- The core has decided on bytes that are there. -/
structure Chosen (drv : PciDriver) (s : DmaLoopState) (txLen : Nat) : Prop where
  idle : s.Idle
  pos : 0 < txLen
  le : txLen ≤ drv.buffMax
  avail : s.rx.widx + txLen ≤ s.sent.length

/-- There is room for the bytes. -/
structure Granted (drv : PciDriver) (s : DmaLoopState) (txLen : Nat) :
    Prop where
  chosen : s.Chosen drv txLen
  room : s.rx.widx + txLen ≤ s.rx.ridx + frcDmaLoopBuffSize

/-- The bytes that the core moves. -/
def next (s : DmaLoopState) (txLen : Nat) : List UInt8 :=
  (s.sent.drop s.rx.widx).take txLen

/-- The second ring holds the bytes behind its index. -/
def Written (s : DmaLoopState) (txLen : Nat) : Prop :=
  Ring.window frcDmaLoopBuffSize s.rx.buff s.rx.widx txLen = s.next txLen

end DmaLoopState

/-- What the core has done so far. -/
inductive DmaLoopOp.Ok (drv : PciDriver) (s : DmaLoopState) :
    DmaLoopOp → Prop
  | poll (h : s.Idle) : Ok drv s .poll
  | room {txLen : Nat} (h : s.Chosen drv txLen) : Ok drv s (.room txLen)
  | recvFirst {txLen : Nat} (h : s.Granted drv txLen) :
      Ok drv s (.recvFirst txLen)
  | recvSecond {txLen : Nat} (h : s.Granted drv txLen)
      (hsplit : dmaLoopLen1 s.rx.widx txLen < txLen)
      (htemp : s.tempBuff =
        (s.next txLen).take (dmaLoopLen1 s.rx.widx txLen)) :
      Ok drv s (.recvSecond txLen)
  | sendFirst {txLen : Nat} (h : s.Granted drv txLen)
      (htemp : s.tempBuff = s.next txLen) : Ok drv s (.sendFirst txLen)
  | sendSecond {txLen : Nat} (h : s.Granted drv txLen)
      (htemp : s.tempBuff = s.next txLen)
      (hsplit : dmaLoopLen1 s.rx.widx txLen < txLen)
      (hfirst : Ring.window frcDmaLoopBuffSize s.rx.buff s.rx.widx
          (dmaLoopLen1 s.rx.widx txLen) =
        (s.next txLen).take (dmaLoopLen1 s.rx.widx txLen)) :
      Ok drv s (.sendSecond txLen)
  | storeRidx {txLen : Nat} (h : s.Granted drv txLen)
      (hall : s.Written txLen) : Ok drv s (.storeRidx txLen)
  | storeWidx {txLen : Nat} (hpos : 0 < txLen)
      (hridx : s.tx.ridx = s.rx.widx + txLen)
      (htxRidx : s.txRidx = s.rx.widx + txLen)
      (hrxWidx : s.rxWidx = s.rx.widx + txLen)
      (havail : s.rx.widx + txLen ≤ s.sent.length)
      (hroom : s.rx.widx + txLen ≤ s.rx.ridx + frcDmaLoopBuffSize)
      (hall : s.Written txLen) : Ok drv s .storeWidx
  | stopped (hle : s.rx.widx ≤ s.tx.ridx) : Ok drv s .stopped

/-- What `dma_tx` has written so far. -/
inductive DmaTxOp.Ok (args : DmaLoopArgs) (s : DmaLoopState) : DmaTxOp → Prop
  | check : Ok args s .check
  | second (hremain : 0 < s.txRemain)
      (hroom : s.sent.length + args.pktLen ≤ s.tx.ridx + frcDmaLoopBuffSize)
      (hsplit : dmaLoopLen1 s.sent.length args.pktLen < args.pktLen)
      (hfirst : Ring.window frcDmaLoopBuffSize s.tx.buff s.sent.length
          (dmaLoopLen1 s.sent.length args.pktLen) =
        (args.packet s.txRemain).take
          (dmaLoopLen1 s.sent.length args.pktLen)) : Ok args s .second
  | publish (hremain : 0 < s.txRemain)
      (hroom : s.sent.length + args.pktLen ≤ s.tx.ridx + frcDmaLoopBuffSize)
      (hall : Ring.window frcDmaLoopBuffSize s.tx.buff s.sent.length
        args.pktLen = args.packet s.txRemain) : Ok args s .publish

/-- What `dma_rx` has read so far. -/
inductive DmaRxOp.Ok (args : DmaLoopArgs) (s : DmaLoopState) : DmaRxOp → Prop
  | check (hlength : s.received.length = s.rx.ridx) : Ok args s .check
  | publish (hremain : 0 < s.rxRemain)
      (havail : s.rx.ridx + args.pktLen ≤ s.rx.widx)
      (hlength : s.received.length = s.rx.ridx + args.pktLen) :
      Ok args s .publish

/-- What every step keeps. -/
structure DmaLoopInv (args : DmaLoopArgs) (drv : PciDriver)
    (s : DmaLoopState) : Prop where
  txRemain_le : s.txRemain ≤ args.entries
  rxRemain_le : s.rxRemain ≤ args.entries
  sent_eq : s.sent = args.packets (args.entries - s.txRemain)
  txWidx : s.tx.widx = s.sent.length
  txStream : Ring.Stream frcDmaLoopBuffSize s.tx.buff s.sent s.tx.ridx
  rxWidx_le : s.rx.widx ≤ s.tx.ridx
  rxStream : Ring.Stream frcDmaLoopBuffSize s.rx.buff
    (s.sent.take s.rx.widx) s.rx.ridx
  rxRidx : s.rx.ridx = (args.entries - s.rxRemain) * args.pktLen
  received_eq : s.received = s.sent.take s.received.length
  errBytes_eq : s.errBytes = 0
  txOk : s.txOp.Ok args s
  rxOk : s.rxOp.Ok args s
  coreOk : s.op.Ok drv s

section Frames

variable {args : DmaLoopArgs} {drv : PciDriver} {s s' : DmaLoopState}

/-- More bytes that are sent, and more room in the second ring, do not disturb
the core. -/
theorem DmaLoopOp.Ok.mono {op : DmaLoopOp} (h : op.Ok drv s)
    (hsent : s.sent <+: s'.sent) (hridx : s'.tx.ridx = s.tx.ridx)
    (hwidx : s'.rx.widx = s.rx.widx) (htxRidx : s'.txRidx = s.txRidx)
    (hrxWidx : s'.rxWidx = s.rxWidx) (htemp' : s'.tempBuff = s.tempBuff)
    (hbuff : s'.rx.buff = s.rx.buff) (hle : s.rx.ridx ≤ s'.rx.ridx) :
    op.Ok drv s' := by
  obtain ⟨more, hmore⟩ := hsent
  have hidle : s.Idle → s'.Idle := fun h =>
    ⟨by rw [hridx, hwidx, h.ridx], by rw [htxRidx, hwidx, h.txRidx],
      by rw [hrxWidx, hwidx, h.rxWidx]⟩
  have hchosen : ∀ {txLen}, s.Chosen drv txLen → s'.Chosen drv txLen := by
    intro txLen h
    have havail := h.avail
    refine ⟨hidle h.idle, h.pos, h.le, ?_⟩
    rw [hwidx, ← hmore, List.length_append]
    omega
  have hgranted : ∀ {txLen}, s.Granted drv txLen → s'.Granted drv txLen := by
    intro txLen h
    have hroom := h.room
    refine ⟨hchosen h.chosen, ?_⟩
    rw [hwidx]
    omega
  have hnext : ∀ {txLen}, s.rx.widx + txLen ≤ s.sent.length →
      s'.next txLen = s.next txLen := by
    intro txLen havail
    rw [DmaLoopState.next, hwidx, ← hmore,
      List.drop_append_of_le_length (by omega),
      List.take_append_of_le_length (by rw [List.length_drop]; omega)]
    rfl
  have hwritten : ∀ {txLen}, s.rx.widx + txLen ≤ s.sent.length →
      s.Written txLen → s'.Written txLen := by
    intro txLen havail h
    rw [DmaLoopState.Written, hbuff, hwidx, hnext havail]
    exact h
  cases h with
  | poll h => exact .poll (hidle h)
  | room h => exact .room (hchosen h)
  | recvFirst h => exact .recvFirst (hgranted h)
  | recvSecond h hsplit htemp =>
      refine .recvSecond (hgranted h) (by rw [hwidx]; exact hsplit) ?_
      rw [htemp', hnext h.chosen.avail, hwidx]
      exact htemp
  | sendFirst h htemp =>
      refine .sendFirst (hgranted h) ?_
      rw [htemp', hnext h.chosen.avail]
      exact htemp
  | sendSecond h htemp hsplit hfirst =>
      refine .sendSecond (hgranted h) ?_ (by rw [hwidx]; exact hsplit) ?_
      · rw [htemp', hnext h.chosen.avail]
        exact htemp
      · rw [hbuff, hwidx, hnext h.chosen.avail]
        exact hfirst
  | storeRidx h hall =>
      exact .storeRidx (hgranted h) (hwritten h.chosen.avail hall)
  | storeWidx hpos hridx' htxRidx' hrxWidx' havail hroom hall =>
      refine .storeWidx hpos ?_ ?_ ?_ ?_ ?_ (hwritten havail hall)
      · rw [hridx, hwidx, hridx']
      · rw [htxRidx, hwidx, htxRidx']
      · rw [hrxWidx, hwidx, hrxWidx']
      · rw [hwidx, ← hmore, List.length_append]
        omega
      · rw [hwidx]
        omega
  | stopped hle => exact .stopped (by rw [hwidx, hridx]; exact hle)

/-- Bytes that the core has taken do not disturb `dma_tx`. -/
theorem DmaTxOp.Ok.mono {op : DmaTxOp} (h : op.Ok args s)
    (hsent : s'.sent = s.sent) (hbuff : s'.tx.buff = s.tx.buff)
    (hremain' : s'.txRemain = s.txRemain) (hle : s.tx.ridx ≤ s'.tx.ridx) :
    op.Ok args s' := by
  cases h with
  | check => exact .check
  | second hremain hroom hsplit hfirst =>
      refine .second (hremain' ▸ hremain) ?_ (hsent ▸ hsplit) ?_
      · rw [hsent]
        omega
      · rw [hsent, hbuff, hremain']
        exact hfirst
  | publish hremain hroom hall =>
      refine .publish (hremain' ▸ hremain) ?_ ?_
      · rw [hsent]
        omega
      · rw [hsent, hbuff, hremain']
        exact hall

/-- Bytes that the core has given do not disturb `dma_rx`. -/
theorem DmaRxOp.Ok.mono {op : DmaRxOp} (h : op.Ok args s)
    (hreceived : s'.received = s.received) (hridx : s'.rx.ridx = s.rx.ridx)
    (hremain' : s'.rxRemain = s.rxRemain) (hle : s.rx.widx ≤ s'.rx.widx) :
    op.Ok args s' := by
  cases h with
  | check hlength => exact .check (by rw [hreceived, hridx]; exact hlength)
  | publish hremain havail hlength =>
      refine .publish (hremain' ▸ hremain) ?_ ?_
      · rw [hridx]
        omega
      · rw [hreceived, hridx]
        exact hlength

end Frames

section Facts

variable {args : DmaLoopArgs} {drv : PciDriver} {s : DmaLoopState}

theorem DmaLoopInv.length_sent (h : DmaLoopInv args drv s) :
    s.sent.length = (args.entries - s.txRemain) * args.pktLen := by
  rw [h.sent_eq, args.length_packets]

theorem DmaLoopInv.sent_lt (h : DmaLoopInv args drv s) :
    s.sent.length < 2 ^ 64 := by
  rw [h.length_sent]
  exact args.packets_lt (Nat.sub_le _ _)

theorem DmaLoopInv.rxWidx_le_sent (h : DmaLoopInv args drv s) :
    s.rx.widx ≤ s.sent.length :=
  Nat.le_trans h.rxWidx_le h.txStream.le

theorem DmaLoopInv.length_rx (h : DmaLoopInv args drv s) :
    (s.sent.take s.rx.widx).length = s.rx.widx :=
  List.length_take_of_le h.rxWidx_le_sent

theorem DmaLoopInv.rxRidx_le (h : DmaLoopInv args drv s) :
    s.rx.ridx ≤ s.rx.widx := by
  have hle := h.rxStream.le
  rw [h.length_rx] at hle
  exact hle

theorem DmaLoopInv.received_le (h : DmaLoopInv args drv s) :
    s.received.length ≤ s.rx.widx := by
  have hle := h.rxRidx_le
  have hok := h.rxOk
  cases hop : s.rxOp with
  | check =>
      rw [hop] at hok
      cases hok with
      | check hlength => omega
  | publish =>
      rw [hop] at hok
      cases hok with
      | publish hremain havail hlength => omega

theorem DmaLoopState.length_next {txLen : Nat}
    (havail : s.rx.widx + txLen ≤ s.sent.length) :
    (s.next txLen).length = txLen := by
  rw [DmaLoopState.next, List.length_take, List.length_drop]
  omega

end Facts

section Threads

variable {args : DmaLoopArgs} {drv : PciDriver} {s : DmaLoopState}

theorem DmaLoopInv.txFirst (h : DmaLoopInv args drv s)
    (hremain : 0 < s.txRemain)
    (hroom : sub64 s.tx.widx s.tx.ridx <
      frcDmaLoopBuffSize - args.pktLen) :
    DmaLoopInv args drv (s.txFirst args) := by
  have hpacket := args.length_packet s.txRemain
  have hroom' : s.sent.length + (args.packet s.txRemain).length ≤
      s.tx.ridx + frcDmaLoopBuffSize := by
    rw [h.txWidx, sub64_eq h.txStream.le h.sent_lt] at hroom
    rw [hpacket]
    omega
  have hstream := h.txStream.writeFirst hroom' frcDmaLoopBuffSize_pos
  rw [hpacket] at hstream
  refine { h with
    txStream := by
      simp only [DmaLoopState.txFirst, h.txWidx]
      exact hstream
    txOk := ?_
    rxOk := h.rxOk.mono rfl rfl rfl (Nat.le_refl _)
    coreOk := h.coreOk.mono (List.prefix_refl _) rfl rfl rfl rfl rfl rfl
      (Nat.le_refl _) }
  simp only [DmaLoopState.txFirst, h.txWidx]
  rw [hpacket] at hroom'
  split
  · rename_i hsplit
    refine .second hremain hroom' hsplit ?_
    have hlen : ((args.packet s.txRemain).take
        (dmaLoopLen1 s.sent.length args.pktLen)).length =
          dmaLoopLen1 s.sent.length args.pktLen := by
      rw [List.length_take, hpacket]
      exact Nat.min_eq_left Ring.firstPiece_le
    exact Ring.write_first_window s.tx.buff frcDmaLoopBuffSize_pos hlen
  · rename_i hwhole
    have hall := Ring.write_whole_window s.tx.buff (args.packet s.txRemain)
      frcDmaLoopBuffSize_pos (hpacket.symm ▸ hwhole)
    rw [hpacket] at hall
    exact .publish hremain hroom' hall

theorem DmaLoopInv.txSecond (h : DmaLoopInv args drv s)
    (hop : s.txOp = .second) : DmaLoopInv args drv (s.txSecond args) := by
  have hpacket := args.length_packet s.txRemain
  have hok := h.txOk
  rw [hop] at hok
  cases hok with
  | second hremain hroom hsplit hfirst =>
      have hroom' : s.sent.length + (args.packet s.txRemain).length ≤
          s.tx.ridx + frcDmaLoopBuffSize := hpacket.symm ▸ hroom
      have hwritten := h.txStream.writeSecond hroom' (hpacket.symm ▸ hsplit)
        (hpacket.symm ▸ hfirst)
      rw [hpacket] at hwritten
      exact { h with
        txStream := by
          simp only [DmaLoopState.txSecond, h.txWidx]
          exact hwritten.1
        txOk := by
          refine .publish hremain hroom ?_
          simp only [DmaLoopState.txSecond, h.txWidx]
          exact hwritten.2
        rxOk := h.rxOk.mono rfl rfl rfl (Nat.le_refl _)
        coreOk := h.coreOk.mono (List.prefix_refl _) rfl rfl rfl rfl rfl rfl
          (Nat.le_refl _) }

/-- A packet has been sent when the index has passed it. -/
theorem DmaLoopInv.txPublish (h : DmaLoopInv args drv s)
    (hop : s.txOp = .publish) : DmaLoopInv args drv (s.txPublish args) := by
  have hpacket := args.length_packet s.txRemain
  have hle := h.txRemain_le
  have hok := h.txOk
  rw [hop] at hok
  cases hok with
  | publish hremain hroom hall =>
      have hsent : s.sent ++ args.packet s.txRemain =
          args.packets (args.entries - (s.txRemain - 1)) := by
        rw [show args.entries - (s.txRemain - 1) =
            (args.entries - s.txRemain) + 1 by omega, args.packets_succ,
          ← h.sent_eq, show args.entries - (args.entries - s.txRemain) =
            s.txRemain by omega]
      have hlength : (s.sent ++ args.packet s.txRemain).length =
          s.sent.length + args.pktLen := by
        rw [List.length_append, hpacket]
      have hfew : s.sent.length + args.pktLen < 2 ^ 64 := by
        rw [← hlength, hsent, args.length_packets]
        exact args.packets_lt (Nat.sub_le _ _)
      have hrx : (s.sent ++ args.packet s.txRemain).take s.rx.widx =
          s.sent.take s.rx.widx :=
        List.take_append_of_le_length h.rxWidx_le_sent
      refine { h with
        txRemain_le := Nat.le_trans (Nat.sub_le _ _) hle
        sent_eq := hsent
        txWidx := ?_
        txStream := h.txStream.enter (hpacket.symm ▸ hall)
          (hpacket.symm ▸ hroom)
        rxStream := ?_
        received_eq := ?_
        txOk := .check
        rxOk := h.rxOk.mono rfl rfl rfl (Nat.le_refl _)
        coreOk := h.coreOk.mono (List.prefix_append _ _) rfl rfl rfl rfl rfl
          rfl (Nat.le_refl _) }
      · simp only [DmaLoopState.txPublish, h.txWidx, hlength]
        exact add64_eq hfew
      · simp only [DmaLoopState.txPublish, hrx]
        exact h.rxStream
      · simp only [DmaLoopState.txPublish]
        rw [List.take_append_of_le_length
          (Nat.le_trans h.received_le h.rxWidx_le_sent)]
        exact h.received_eq

/-- The bytes that `dma_rx` compares are those of its packet. -/
theorem DmaLoopInv.rxBytes_eq (h : DmaLoopInv args drv s)
    (havail : s.rx.ridx + args.pktLen ≤ s.rx.widx) :
    s.rxBytes args = (s.sent.drop s.rx.ridx).take args.pktLen ∧
      s.rxBytes args = args.packet s.rxRemain := by
  have hsent := h.rxWidx_le_sent
  have hbytes : s.rxBytes args =
      (s.sent.drop s.rx.ridx).take args.pktLen := by
    have hread := h.rxStream.read_eq (by rw [h.length_rx]; exact havail)
    rw [List.drop_take, List.take_take, Nat.min_eq_left (by omega)] at hread
    rw [← hread]
    exact Ring.read_pieces s.rx.ridx s.rx.buff frcDmaLoopBuffSize_pos
      args.pktLen_le
  refine ⟨hbytes, hbytes.trans ?_⟩
  rcases Nat.eq_zero_or_pos args.pktLen with hzero | hpos
  · rw [DmaLoopArgs.packet, hzero]
    rfl
  · have hpacket : args.entries - s.rxRemain < args.entries - s.txRemain := by
      have hle : (args.entries - s.rxRemain + 1) * args.pktLen ≤
          (args.entries - s.txRemain) * args.pktLen := by
        rw [Nat.add_mul, Nat.one_mul, ← h.rxRidx, ← h.length_sent]
        exact Nat.le_trans havail hsent
      exact Nat.le_of_mul_le_mul_right hle hpos
    have hremain := h.rxRemain_le
    rw [h.sent_eq, h.rxRidx, args.packets_get hpacket,
      Nat.sub_sub_self hremain]

theorem DmaLoopInv.rxRead (h : DmaLoopInv args drv s) (hop : s.rxOp = .check)
    (hremain : 0 < s.rxRemain)
    (hlen : args.pktLen ≤ sub64 s.rx.widx s.rx.ridx) :
    DmaLoopInv args drv (s.rxRead args) := by
  have hle := h.rxRidx_le
  have hsent := h.rxWidx_le_sent
  have hlt := h.sent_lt
  rw [sub64_eq hle (by omega)] at hlen
  have havail : s.rx.ridx + args.pktLen ≤ s.rx.widx := by omega
  obtain ⟨hbytes, hpacket⟩ := h.rxBytes_eq havail
  have hcount : (s.rxBytes args).length = args.pktLen := by
    rw [hpacket, args.length_packet]
  have hok := h.rxOk
  rw [hop] at hok
  cases hok with
  | check hlength =>
      refine { h with
        received_eq := ?_
        errBytes_eq := ?_
        txOk := h.txOk.mono rfl rfl rfl (Nat.le_refl _)
        rxOk := ?_
        coreOk := h.coreOk.mono (List.prefix_refl _) rfl rfl rfl rfl rfl rfl
          (Nat.le_refl _) }
      · have hreceived := h.received_eq
        simp only [DmaLoopState.rxRead, List.length_append, hcount]
        rw [List.take_add, ← hreceived, hlength, ← hbytes]
      · simp only [DmaLoopState.rxRead, h.errBytes_eq, Nat.zero_add, hpacket]
        rw [List.countP_eq_zero]
        intro byte hbyte
        simpa using List.eq_of_mem_replicate hbyte
      · refine .publish hremain havail ?_
        simp only [DmaLoopState.rxRead, List.length_append, hcount, hlength]

theorem DmaLoopInv.rxPublish (h : DmaLoopInv args drv s)
    (hop : s.rxOp = .publish) : DmaLoopInv args drv (s.rxPublish args) := by
  have hle := h.rxRemain_le
  have hsent := h.rxWidx_le_sent
  have hlt := h.sent_lt
  have hok := h.rxOk
  rw [hop] at hok
  cases hok with
  | publish hremain havail hlength =>
      have hridx : add64 s.rx.ridx args.pktLen = s.rx.ridx + args.pktLen :=
        add64_eq (by omega)
      refine { h with
        rxRemain_le := Nat.le_trans (Nat.sub_le _ _) hle
        rxStream := ?_
        rxRidx := ?_
        txOk := h.txOk.mono rfl rfl rfl (Nat.le_refl _)
        rxOk := ?_
        coreOk := h.coreOk.mono (List.prefix_refl _) rfl rfl rfl rfl rfl rfl
          ?_ }
      · simp only [DmaLoopState.rxPublish, hridx]
        exact h.rxStream.leave (by rw [h.length_rx]; exact havail)
      · simp only [DmaLoopState.rxPublish, hridx]
        rw [show args.entries - (s.rxRemain - 1) =
          args.entries - s.rxRemain + 1 by omega, Nat.succ_mul, h.rxRidx]
      · refine .check ?_
        simp only [DmaLoopState.rxPublish, hridx]
        exact hlength
      · simp only [DmaLoopState.rxPublish, hridx]
        exact Nat.le_add_right _ _

end Threads

section Core

variable {args : DmaLoopArgs} {drv : PciDriver} {s : DmaLoopState}
  {txLen : Nat}

/-- A step of the core that touches no ring. -/
theorem DmaLoopInv.coreStep (h : DmaLoopInv args drv s) {op : DmaLoopOp}
    {cnt : Nat} {tempBuff : List UInt8}
    (hok : op.Ok drv { s with op := op, cnt := cnt, tempBuff := tempBuff }) :
    DmaLoopInv args drv
      { s with op := op, cnt := cnt, tempBuff := tempBuff } :=
  { h with
    txOk := h.txOk.mono rfl rfl rfl (Nat.le_refl _)
    rxOk := h.rxOk.mono rfl rfl rfl (Nat.le_refl _)
    coreOk := hok }

theorem DmaLoopInv.fail (h : DmaLoopInv args drv s) :
    DmaLoopInv args drv { s with op := .stopped } :=
  h.coreStep (.stopped h.rxWidx_le)

theorem DmaLoopState.Idle.frame (h : s.Idle) {op : DmaLoopOp} {cnt : Nat}
    {tempBuff : List UInt8} :
    DmaLoopState.Idle
      { s with op := op, cnt := cnt, tempBuff := tempBuff } :=
  ⟨h.ridx, h.txRidx, h.rxWidx⟩

theorem DmaLoopInv.poll (h : DmaLoopInv args drv s) (hop : s.op = .poll) :
    DmaLoopInv args drv (s.poll drv) := by
  have hmax : 0 < drv.buffMax :=
    Nat.mul_pos drv.maxPointers_pos drv.maxLocalBuf_pos
  have hle := h.rxWidx_le_sent
  have hok := h.coreOk
  rw [hop] at hok
  cases hok with
  | poll hidle =>
      have hlen : sub64 s.tx.widx s.txRidx = s.sent.length - s.rx.widx := by
        rw [h.txWidx, hidle.txRidx, sub64_eq hle h.sent_lt]
      simp only [DmaLoopState.poll, hlen]
      split
      · exact h.coreStep (hop ▸ .poll hidle.frame)
      · split
        · exact h.coreStep (hop ▸ .poll hidle.frame)
        · refine h.coreStep (.room ⟨hidle.frame, ?_, ?_, ?_⟩)
          · split
            · exact hmax
            · omega
          · split
            · exact Nat.le_refl _
            · omega
          · dsimp only
            split
            · omega
            · omega

theorem DmaLoopState.Chosen.frame (h : s.Chosen drv txLen) {op : DmaLoopOp}
    {cnt : Nat} {tempBuff : List UInt8} :
    DmaLoopState.Chosen drv
      { s with op := op, cnt := cnt, tempBuff := tempBuff } txLen :=
  ⟨h.idle.frame, h.pos, h.le, h.avail⟩

theorem DmaLoopState.Granted.frame (h : s.Granted drv txLen) {op : DmaLoopOp}
    {cnt : Nat} {tempBuff : List UInt8} :
    DmaLoopState.Granted drv
      { s with op := op, cnt := cnt, tempBuff := tempBuff } txLen :=
  ⟨h.chosen.frame, h.room⟩

theorem DmaLoopInv.room (h : DmaLoopInv args drv s)
    (hop : s.op = .room txLen) : DmaLoopInv args drv (s.room txLen) := by
  have hle := h.rxRidx_le
  have hsent := h.rxWidx_le_sent
  have hlt := h.sent_lt
  have hroom := h.txStream.room
  have hok := h.coreOk
  rw [hop] at hok
  cases hok with
  | room hchosen =>
      have havail := hchosen.avail
      have hridx := hchosen.idle.ridx
      -- the bytes are in the first ring, so they are no more than its size
      have hfree : sub64 frcDmaLoopBuffSize txLen =
          frcDmaLoopBuffSize - txLen := sub64_eq (by omega) (by decide)
      have hused : sub64 s.rxWidx s.rx.ridx = s.rx.widx - s.rx.ridx := by
        rw [hchosen.idle.rxWidx, sub64_eq hle (by omega)]
      simp only [DmaLoopState.room, hused, hfree]
      split
      · rename_i hgrant
        refine h.coreStep (.recvFirst ⟨hchosen.frame, ?_⟩)
        dsimp only
        omega
      · exact h

/-- The bytes that are there are those of the first ring. -/
theorem DmaLoopInv.window_tx (h : DmaLoopInv args drv s)
    (hchosen : s.Chosen drv txLen) :
    Ring.window frcDmaLoopBuffSize s.tx.buff s.rx.widx txLen =
      s.next txLen := by
  have hridx := hchosen.idle.ridx
  have hread := h.txStream.read_eq (hridx ▸ hchosen.avail)
  rw [hridx] at hread
  exact hread

theorem DmaLoopInv.recvFirst (h : DmaLoopInv args drv s)
    (hop : s.op = .recvFirst txLen) :
    DmaLoopInv args drv (s.recvFirst txLen) := by
  have hok := h.coreOk
  rw [hop] at hok
  cases hok with
  | recvFirst hgranted =>
      have hwindow := h.window_tx hgranted.chosen
      have htemp : Ring.read s.tx.buff (s.rx.widx % frcDmaLoopBuffSize)
          (dmaLoopLen1 s.rx.widx txLen) =
            (s.next txLen).take (dmaLoopLen1 s.rx.widx txLen) := by
        rw [← hwindow, Ring.window_take _ _ _ dmaLoopLen1_le]
        exact Ring.read_first s.tx.buff frcDmaLoopBuffSize_pos
      rw [← hgranted.chosen.idle.txRidx] at htemp
      simp only [DmaLoopState.recvFirst]
      split
      · rename_i hsplit
        rw [hgranted.chosen.idle.txRidx] at hsplit htemp
        refine h.coreStep (.recvSecond hgranted.frame hsplit ?_)
        dsimp only
        rw [hgranted.chosen.idle.txRidx]
        exact htemp
      · rename_i hwhole
        refine h.coreStep (.sendFirst hgranted.frame ?_)
        refine htemp.trans (List.take_of_length_le ?_)
        rw [DmaLoopState.length_next hgranted.chosen.avail]
        exact Nat.not_lt.mp hwhole

theorem DmaLoopInv.recvSecond (h : DmaLoopInv args drv s)
    (hop : s.op = .recvSecond txLen) :
    DmaLoopInv args drv (s.recvSecond txLen) := by
  have hroom := h.txStream.room
  have hok := h.coreOk
  rw [hop] at hok
  cases hok with
  | recvSecond hgranted hsplit htemp =>
      have havail := hgranted.chosen.avail
      have hridx := hgranted.chosen.idle.ridx
      have hall : s.tempBuff ++ Ring.read s.tx.buff 0
          (txLen - dmaLoopLen1 s.rx.widx txLen) = s.next txLen := by
        have hsum := Ring.window_append frcDmaLoopBuffSize s.tx.buff s.rx.widx
          (dmaLoopLen1 s.rx.widx txLen)
          (txLen - dmaLoopLen1 s.rx.widx txLen)
        rw [Nat.add_sub_cancel' dmaLoopLen1_le,
          h.window_tx hgranted.chosen] at hsum
        have hsecond := Ring.read_second s.tx.buff (by omega) hsplit
        rw [htemp, hsum, List.take_left' (Ring.length_window ..)]
        exact congrArg _ hsecond
      rw [← hgranted.chosen.idle.txRidx] at hall
      exact h.coreStep (.sendFirst hgranted.frame hall)

/-- A write to free slots of the second ring. -/
theorem DmaLoopInv.coreWrite (h : DmaLoopInv args drv s) {op : DmaLoopOp}
    {buff : Nat → UInt8}
    (hstream : Ring.Stream frcDmaLoopBuffSize buff
      (s.sent.take s.rx.widx) s.rx.ridx)
    (hok : op.Ok drv { s with rx := { s.rx with buff := buff }, op := op }) :
    DmaLoopInv args drv
      { s with rx := { s.rx with buff := buff }, op := op } :=
  { h with
    rxStream := hstream
    txOk := h.txOk.mono rfl rfl rfl (Nat.le_refl _)
    rxOk := h.rxOk.mono rfl rfl rfl (Nat.le_refl _)
    coreOk := hok }

theorem DmaLoopState.Granted.write (h : s.Granted drv txLen) {op : DmaLoopOp}
    {buff : Nat → UInt8} :
    DmaLoopState.Granted drv
      { s with rx := { s.rx with buff := buff }, op := op } txLen :=
  ⟨⟨⟨h.chosen.idle.ridx, h.chosen.idle.txRidx, h.chosen.idle.rxWidx⟩,
    h.chosen.pos, h.chosen.le, h.chosen.avail⟩, h.room⟩

theorem DmaLoopInv.sendFirst (h : DmaLoopInv args drv s)
    (hop : s.op = .sendFirst txLen) :
    DmaLoopInv args drv (s.sendFirst txLen) := by
  have hok := h.coreOk
  rw [hop] at hok
  cases hok with
  | sendFirst hgranted htemp =>
      have hlen : s.tempBuff.length = txLen := by
        rw [htemp, DmaLoopState.length_next hgranted.chosen.avail]
      have hroom : (s.sent.take s.rx.widx).length + s.tempBuff.length ≤
          s.rx.ridx + frcDmaLoopBuffSize := by
        rw [h.length_rx, hlen]
        exact hgranted.room
      have hstream := h.rxStream.writeFirst hroom frcDmaLoopBuffSize_pos
      rw [h.length_rx, hlen] at hstream
      have hidx := hgranted.chosen.idle.rxWidx
      have hstream' : Ring.Stream frcDmaLoopBuffSize
          (Ring.write s.rx.buff (s.rxWidx % frcDmaLoopBuffSize)
            (s.tempBuff.take (dmaLoopLen1 s.rxWidx txLen)))
          (s.sent.take s.rx.widx) s.rx.ridx := by
        rw [hidx]
        exact hstream
      simp only [DmaLoopState.sendFirst]
      split
      · rename_i hsplit
        rw [hidx] at hsplit
        refine h.coreWrite hstream'
          (.sendSecond hgranted.write htemp hsplit ?_)
        dsimp only
        rw [hidx]
        have htake : (s.tempBuff.take (dmaLoopLen1 s.rx.widx txLen)).length =
            dmaLoopLen1 s.rx.widx txLen := by
          rw [List.length_take, hlen]
          exact Nat.min_eq_left Ring.firstPiece_le
        have hfirst := Ring.write_first_window s.rx.buff
          frcDmaLoopBuffSize_pos htake
        rw [htemp] at hfirst ⊢
        exact hfirst
      · rename_i hwhole
        rw [hidx] at hwhole
        refine h.coreWrite hstream' (.storeRidx hgranted.write ?_)
        rw [DmaLoopState.Written]
        dsimp only
        rw [hidx]
        have hall := Ring.write_whole_window s.rx.buff s.tempBuff
          frcDmaLoopBuffSize_pos (hlen.symm ▸ hwhole)
        rw [hlen] at hall
        exact hall.trans htemp

theorem DmaLoopInv.sendSecond (h : DmaLoopInv args drv s)
    (hop : s.op = .sendSecond txLen) :
    DmaLoopInv args drv (s.sendSecond txLen) := by
  have hok := h.coreOk
  rw [hop] at hok
  cases hok with
  | sendSecond hgranted htemp hsplit hfirst =>
      have hlen : s.tempBuff.length = txLen := by
        rw [htemp, DmaLoopState.length_next hgranted.chosen.avail]
      have hroom : (s.sent.take s.rx.widx).length + s.tempBuff.length ≤
          s.rx.ridx + frcDmaLoopBuffSize := by
        rw [h.length_rx, hlen]
        exact hgranted.room
      have hwritten := h.rxStream.writeSecond hroom
      rw [h.length_rx, hlen, htemp] at hwritten
      obtain ⟨hstream, hall⟩ := hwritten hsplit hfirst
      have hstream' : Ring.Stream frcDmaLoopBuffSize
          (Ring.write s.rx.buff 0
            (s.tempBuff.drop (dmaLoopLen1 s.rxWidx txLen)))
          (s.sent.take s.rx.widx) s.rx.ridx := by
        rw [hgranted.chosen.idle.rxWidx, htemp]
        exact hstream
      refine h.coreWrite hstream' (.storeRidx hgranted.write ?_)
      rw [DmaLoopState.Written]
      dsimp only
      rw [hgranted.chosen.idle.rxWidx, htemp]
      exact hall

/-- The host learns of the bytes that have left the first ring. -/
theorem DmaLoopInv.storeRidx (h : DmaLoopInv args drv s)
    (hop : s.op = .storeRidx txLen) :
    DmaLoopInv args drv (s.storeRidx txLen) := by
  have hlt := h.sent_lt
  have hok := h.coreOk
  rw [hop] at hok
  cases hok with
  | storeRidx hgranted hall =>
      have hridx := hgranted.chosen.idle.ridx
      have havail := hgranted.chosen.avail
      have hmoved : add64 s.txRidx txLen = s.rx.widx + txLen := by
        rw [hgranted.chosen.idle.txRidx, add64_eq (by omega)]
      have hmoved' : add64 s.rxWidx txLen = s.rx.widx + txLen := by
        rw [hgranted.chosen.idle.rxWidx, add64_eq (by omega)]
      simp only [DmaLoopState.storeRidx, hmoved, hmoved']
      exact { h with
        txStream := hridx ▸ h.txStream.leave (hridx.symm ▸ havail)
        rxWidx_le := Nat.le_add_right _ _
        txOk := h.txOk.mono rfl rfl rfl (by dsimp only; omega)
        rxOk := h.rxOk.mono rfl rfl rfl (Nat.le_refl _)
        coreOk := .storeWidx hgranted.chosen.pos rfl rfl rfl havail
          hgranted.room hall }

/-- The host learns of the bytes that have entered the second ring. -/
theorem DmaLoopInv.storeWidx (h : DmaLoopInv args drv s)
    (hop : s.op = .storeWidx) : DmaLoopInv args drv s.storeWidx := by
  have hok := h.coreOk
  rw [hop] at hok
  cases hok with
  | @storeWidx txLen hpos hridx htxRidx hrxWidx havail hroom hall =>
      have hnext := DmaLoopState.length_next havail
      have hitems : Ring.window frcDmaLoopBuffSize s.rx.buff
          (s.sent.take s.rx.widx).length (s.next txLen).length =
            s.next txLen := by
        rw [h.length_rx, hnext]
        exact hall
      have hentered := h.rxStream.enter hitems (by
        rw [h.length_rx, hnext]
        exact hroom)
      rw [DmaLoopState.next, ← List.take_add] at hentered
      simp only [DmaLoopState.storeWidx, hrxWidx]
      exact { h with
        rxWidx_le := Nat.le_of_eq hridx.symm
        rxStream := hentered
        txOk := h.txOk.mono rfl rfl rfl (Nat.le_refl _)
        rxOk := h.rxOk.mono rfl rfl rfl (Nat.le_add_right _ _)
        coreOk := .poll ⟨hridx, htxRidx, rfl⟩ }

theorem DmaLoopInv.step {s' : DmaLoopState} (h : DmaLoopInv args drv s)
    (hstep : DmaLoopStep args drv s s') : DmaLoopInv args drv s' := by
  cases hstep with
  | txFirst hop hremain hroom => exact h.txFirst hremain hroom
  | txSecond hop => exact h.txSecond hop
  | txPublish hop => exact h.txPublish hop
  | rxRead hop hremain hlen => exact h.rxRead hop hremain hlen
  | rxPublish hop => exact h.rxPublish hop
  | poll hop => exact h.poll hop
  | room hop => exact h.room hop
  | recvFirst hop => exact h.recvFirst hop
  | recvSecond hop => exact h.recvSecond hop
  | sendFirst hop => exact h.sendFirst hop
  | sendSecond hop => exact h.sendSecond hop
  | storeRidx hop => exact h.storeRidx hop
  | storeWidx hop => exact h.storeWidx hop
  | fail => exact h.fail

theorem DmaLoopInv.start (args : DmaLoopArgs) (drv : PciDriver) :
    DmaLoopInv args drv args.start where
  txRemain_le := Nat.le_refl _
  rxRemain_le := Nat.le_refl _
  sent_eq := by
    show [] = args.packets (args.entries - args.entries)
    rw [Nat.sub_self]
    rfl
  txWidx := rfl
  txStream := .zero _ _
  rxWidx_le := Nat.le_refl 0
  rxStream := .zero _ _
  rxRidx := by
    show 0 = (args.entries - args.entries) * args.pktLen
    rw [Nat.sub_self, Nat.zero_mul]
  received_eq := rfl
  errBytes_eq := rfl
  txOk := .check
  rxOk := .check rfl
  coreOk := .poll ⟨rfl, rfl, rfl⟩

theorem DmaLoopReachable.inv {start : DmaLoopState}
    (hstart : DmaLoopInv args drv start)
    (hreach : DmaLoopReachable args drv start s) : DmaLoopInv args drv s := by
  induction hreach with
  | start => exact hstart
  | step _ hstep ih => exact ih.step hstep

/-- A thread that has no packet left has received them all. -/
theorem DmaLoopInv.received_all (h : DmaLoopInv args drv s)
    (hremain : s.rxRemain = 0) :
    s.received = args.packets args.entries := by
  have hle := h.rxRidx_le
  have hsent := h.rxWidx_le_sent
  have hlength := h.length_sent
  have htotal := Nat.mul_le_mul_right args.pktLen
    (Nat.sub_le args.entries s.txRemain)
  have hridx := h.rxRidx
  rw [hremain, Nat.sub_zero] at hridx
  have hlen : s.received.length = s.sent.length := by
    have hok := h.rxOk
    cases hop : s.rxOp with
    | check =>
        rw [hop] at hok
        cases hok with
        | check hlength => omega
    | publish =>
        rw [hop] at hok
        cases hok with
        | publish hpos havail hlength => omega
  have hall : s.sent.length = args.entries * args.pktLen := by omega
  have hreceived := h.received_eq
  rw [hlen, List.take_length] at hreceived
  rw [hreceived, h.sent_eq]
  apply (args.packets_prefix (Nat.sub_le _ _)).eq_of_length
  rw [← h.sent_eq, hall, args.length_packets]

end Core

end Barley
