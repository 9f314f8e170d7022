/-
Which packets are answered with the instruction that the configuration asks
for, whatever was sent before.
-/
import Barley.IpcEmit

namespace Barley

section Buffers

variable (buf : Nat → UInt8)

theorem read_write_append (n : Nat) (items : List UInt8) :
    Ring.read (Ring.write buf n items) 0 (n + items.length) =
      Ring.read buf 0 n ++ items := by
  refine List.ext_getElem ?_ fun k hk hk' => ?_
  · simp [Ring.read]
  · simp only [Ring.read, List.length_map, List.length_range] at hk
    simp only [Ring.read, List.getElem_map, List.getElem_range, Nat.zero_add]
    by_cases hlt : k < n
    · rw [Ring.write_of_outside buf (.inl hlt), List.getElem_append_left,
        List.getElem_map, List.getElem_range]
      simpa using hlt
    · obtain ⟨j, rfl⟩ := Nat.exists_eq_add_of_le (Nat.not_lt.mp hlt)
      have hj : j < items.length := by omega
      rw [Ring.write_get buf n hj, List.getElem_append_right]
      · simp
      · simp

/-- The header after the initialisation. -/
theorem read_instrHdInit {i : Nat} (hi : i < 2 ^ 11) :
    Ring.read (instrHdInit buf i) 0 sizeofIpcInstrHd = instrHd buf i := by
  have hload : Bytes.load .big [buf 4, buf 5] / 2 ^ 11 * 2 ^ 11 + i % 2 ^ 11 =
      (buf 4).toNat / 8 * 2 ^ 11 + i := by
    have hlt := (buf 5).toNat_lt
    simp only [Bytes.load, List.reverse_cons, List.reverse_nil, List.nil_append,
      List.cons_append, Bytes.ofLittle]
    omega
  rw [instrHd, ← hload]
  rfl

end Buffers

section Command

variable (cmd : IpcCmd) (pad : Vector UInt8 6)

theorem length_bytes : (cmd.bytes pad).length = sizeofIpcCmd := by
  simp [IpcCmd.bytes, sizeofIpcCmd]

theorem load_pktid :
    Bytes.load .big ((cmd.bytes pad).take 8) = cmd.pktid.toNat := by
  have hlt : cmd.pktid.toNat < 256 ^ 8 := cmd.pktid.isLt
  rw [IpcCmd.bytes, List.take_left' (Bytes.length_store ..),
    Bytes.load_store .big hlt]

theorem load_fields :
    Bytes.load .big (((cmd.bytes pad).drop 8).take 2) =
      cmd.dtype.toNat * 2 ^ 12 + cmd.ipLen.toNat := by
  have hdtype := cmd.dtype.isLt
  have hipLen := cmd.ipLen.isLt
  rw [IpcCmd.bytes, List.drop_left' (Bytes.length_store ..),
    List.take_left' (Bytes.length_store ..), Bytes.load_store]
  omega

/-- The two fields can be told apart. -/
theorem load_dtype :
    Bytes.load .big (((cmd.bytes pad).drop 8).take 2) / 2 ^ 12 =
      cmd.dtype.toNat := by
  have hipLen := cmd.ipLen.isLt
  rw [load_fields]
  omega

theorem load_ipLen :
    Bytes.load .big (((cmd.bytes pad).drop 8).take 2) % 2 ^ 12 =
      cmd.ipLen.toNat := by
  have hipLen := cmd.ipLen.isLt
  rw [load_fields]
  omega

end Command

section Packet

variable {instr : IpcInstr} {pkt : IpcIpv4Pkt}

theorem toNat_sampleIif : pkt.dpkt.sampleIif.toNat = pkt.iif := by
  have hlow : (pkt.dpkt.slot ++ pkt.dpkt.card ++ pkt.dpkt.ifid).toNat < 2 ^ 8 :=
    BitVec.isLt _
  have hchassis := pkt.dpkt.chassis.isLt
  have hslot := pkt.dpkt.slot.isLt
  have hcard := pkt.dpkt.card.isLt
  have hifid := pkt.dpkt.ifid.isLt
  rw [sampleIif_eq, BitVec.toNat_setWidth, BitVec.toNat_append,
    ← Nat.shiftLeft_add_eq_or_of_lt hlow, BitVec.toNat_append,
    ← Nat.shiftLeft_add_eq_or_of_lt hifid, BitVec.toNat_append,
    ← Nat.shiftLeft_add_eq_or_of_lt hcard, IpcIpv4Pkt.iif]
  simp only [Nat.shiftLeft_eq]
  omega

theorem toNat_sampleCmd_pktid :
    (sampleCmd instr.instrCfg pkt.dpkt).pktid.toNat =
      if instr.instrCfg.type &&& instr.instrCfg.action ≠ 0 then 2 ^ 64 - 1
      else pkt.pktid := by
  rw [sampleCmd]
  split
  · rfl
  · have hlow := pkt.dpkt.pidL.isLt
    have hhigh := pkt.dpkt.pidH.isLt
    rw [BitVec.toNat_or, BitVec.toNat_shiftLeft, BitVec.toNat_setWidth,
      BitVec.toNat_setWidth, Nat.mod_eq_of_lt (by omega : pkt.dpkt.pidH.toNat <
        2 ^ 64), Nat.mod_eq_of_lt (by omega : pkt.dpkt.pidL.toNat < 2 ^ 64),
      Nat.mod_eq_of_lt (by rw [Nat.shiftLeft_eq]; omega),
      ← Nat.shiftLeft_add_eq_or_of_lt hlow, Nat.shiftLeft_eq, IpcIpv4Pkt.pktid]

/-- What a sampled packet inserts. -/
def IpcIpv4Pkt.insertion (pkt : IpcIpv4Pkt) (instr : IpcInstr) :
    IpcInsertion :=
  frcoreIpcCmdInsert pkt.dpkt.sampleIif (sampleCmd instr.instrCfg pkt.dpkt)
    instr.payload

theorem insertion_payload :
    (pkt.insertion instr).payload =
      (List.range (instr.instrCfg.ipLen.setWidth 12).toNat).map
        instr.payload := by
  simp only [IpcIpv4Pkt.insertion, frcoreIpcCmdInsert, sampleCmd]
  refine ite_eq_left_iff.mpr fun hzero => ?_
  rw [Nat.eq_zero_of_not_pos hzero]
  rfl

theorem insertion_cmdLen : (pkt.insertion instr).cmdLen = sizeofIpcCmd := by
  simp only [IpcIpv4Pkt.insertion, frcoreIpcCmdInsert]
  split <;> rfl

/-- With `instr_send` set, the packets whose address shares a bit with the data
are the ones an instruction is inserted for. -/
theorem process_eq {misc : IpcMisc} (hsend : misc.instrSend ≠ 0) :
    frcoreIpcIpv4Process instr misc pkt.dpkt pkt.p =
      if instr.instrCfg.Samples pkt.sip pkt.dip then
        some (pkt.insertion instr)
      else none := by
  simp only [frcoreIpcIpv4Process, frcoreIpcIpv4InstrSample, pkt.plain, hsend,
    ne_eq, not_true_eq_false, not_false_eq_true, if_false, if_true]
  rfl

/-- Every buffer of the table starts with its header. -/
def Intact (mem bufs : OutBufs) : Prop :=
  ∀ i < ipcIifMax, Ring.read (bufs i) 0 sizeofIpcInstrHd = instrHd (mem i) i

theorem intact_init (mem : OutBufs) :
    Intact mem (frcoreIpcInstrTableInit mem) := by
  intro i hi
  rw [frcoreIpcInstrTableInit, if_pos hi]
  refine read_instrHdInit (mem i) ?_
  simp only [ipcIifMax] at hi
  omega

/-- What is written behind the header of an interface. -/
def IpcIpv4Pkt.body (pkt : IpcIpv4Pkt) (instr : IpcInstr) : List UInt8 :=
  (sampleCmd instr.instrCfg pkt.dpkt).bytes pkt.pad ++
    (List.range (instr.instrCfg.ipLen.setWidth 12).toNat).map instr.payload

theorem length_body : (pkt.body instr).length =
    sizeofIpcCmd + (instr.instrCfg.ipLen.setWidth 12).toNat := by
  rw [IpcIpv4Pkt.body, List.length_append, length_bytes, List.length_map,
    List.length_range]

theorem send_eq (bufs : OutBufs) :
    (pkt.insertion instr).send bufs pkt.pad =
      if pkt.iif < ipcIifMax ∧ sizeofIpcInstrHd + sizeofIpcCmd +
          (instr.instrCfg.ipLen.setWidth 12).toNat ≤ outbufSize then
        some (Function.update bufs pkt.iif (Ring.write (bufs pkt.iif)
            sizeofIpcInstrHd (pkt.body instr)),
          Ring.read (bufs pkt.iif) 0 sizeofIpcInstrHd ++ pkt.body instr)
      else none := by
  have hiif : (pkt.insertion instr).iif.toNat = pkt.iif := toNat_sampleIif
  have hlen : (pkt.insertion instr).payload.length =
      (instr.instrCfg.ipLen.setWidth 12).toNat := by
    rw [insertion_payload, List.length_map, List.length_range]
  have hbody : ((pkt.insertion instr).cmd.bytes pkt.pad).take
      (pkt.insertion instr).cmdLen ++ (pkt.insertion instr).payload =
      pkt.body instr := by
    rw [insertion_cmdLen, insertion_payload, List.take_of_length_le]
    · rfl
    · rw [length_bytes]
  have hout : (pkt.insertion instr).outputLen =
      sizeofIpcInstrHd + (pkt.body instr).length := by
    rw [IpcInsertion.outputLen, insertion_cmdLen, hlen, length_body,
      Nat.add_assoc]
  have hfits : (pkt.insertion instr).payload.length ≤ ipcIpLenMax ∧
      (pkt.insertion instr).outputLen ≤ outbufSize ↔
      sizeofIpcInstrHd + sizeofIpcCmd +
        (instr.instrCfg.ipLen.setWidth 12).toNat ≤ outbufSize := by
    rw [hlen, hout, length_body]
    simp only [outbufSize, ipcIpLenMax]
    omega
  rw [IpcInsertion.send, hiif, hbody, hout, ← read_write_append, ← hout]
  exact if_congr (and_congr_right fun _ => hfits) rfl rfl

theorem Intact.update {mem bufs : OutBufs} (h : Intact mem bufs) (i : Nat)
    (items : List UInt8) :
    Intact mem (Function.update bufs i
      (Ring.write (bufs i) sizeofIpcInstrHd items)) := by
  intro j hj
  by_cases hji : j = i
  · subst hji
    rw [Function.update_self, ← h j hj]
    refine List.map_congr_left fun k hk => Ring.write_of_outside _ (.inl ?_)
    rw [List.mem_range] at hk
    omega
  · rw [Function.update_of_ne hji]
    exact h j hj

theorem iif_lt_iff : pkt.iif < ipcIifMax ↔ pkt.dpkt.chassis.toNat < 4 := by
  rw [← toNat_sampleIif]
  exact sampleIif_lt_iff pkt.dpkt

/-- The packet that is sent is the right one when the type has four bits and
the length twelve. -/
theorem isPacket_iff {mem : OutBufs} :
    (∃ cmd bytes, [instrHd (mem pkt.iif) pkt.iif ++ pkt.body instr] = [bytes] ∧
      instr.IsPacket mem pkt cmd bytes) ↔
      instr.instrCfg.type.toNat < 2 ^ 4 ∧
        instr.instrCfg.ipLen.toNat < 2 ^ 12 := by
  have hdtype : (sampleCmd instr.instrCfg pkt.dpkt).dtype.toNat =
      instr.instrCfg.type.toNat % 2 ^ 4 := BitVec.toNat_setWidth ..
  have hipLen : (sampleCmd instr.instrCfg pkt.dpkt).ipLen.toNat =
      instr.instrCfg.ipLen.toNat % 2 ^ 12 := BitVec.toNat_setWidth ..
  constructor
  · rintro ⟨cmd, bytes, hbytes, hpacket⟩
    rw [List.singleton_inj] at hbytes
    have hparts := List.append_cancel_left (hbytes.trans hpacket.parts)
    rw [IpcIpv4Pkt.body] at hparts
    obtain ⟨rfl, _⟩ := List.append_inj hparts
      ((length_bytes _ _).trans hpacket.length.symm)
    have htype := hpacket.dtype
    have hlen := hpacket.ipLen
    rw [load_dtype, hdtype] at htype
    rw [load_ipLen, hipLen] at hlen
    omega
  · rintro ⟨htype, hlen⟩
    refine ⟨(sampleCmd instr.instrCfg pkt.dpkt).bytes pkt.pad, _, rfl, ?_, ?_, ?_,
      ?_, ?_⟩
    · rw [IpcIpv4Pkt.body, BitVec.toNat_setWidth, Nat.mod_eq_of_lt hlen]
    · exact length_bytes _ _
    · rw [load_pktid, toNat_sampleCmd_pktid]
    · rw [load_dtype, hdtype, Nat.mod_eq_of_lt htype]
    · rw [load_ipLen, hipLen, Nat.mod_eq_of_lt hlen]

/-- What is right to send for a packet. -/
theorem answered_nil_iff {mem : OutBufs} :
    instr.Answered mem pkt [] ↔ ¬ instr.instrCfg.Matches pkt := by
  rw [IpcInstr.Answered]
  by_cases hmatches : instr.instrCfg.Matches pkt
  · rw [if_pos hmatches]
    refine iff_of_false ?_ (not_not_intro hmatches)
    rintro ⟨_, _, hnil, _⟩
    cases hnil
  · rw [if_neg hmatches]
    exact iff_of_true rfl hmatches

theorem answered_body_iff {mem : OutBufs} :
    instr.Answered mem pkt
        [instrHd (mem pkt.iif) pkt.iif ++ pkt.body instr] ↔
      instr.instrCfg.Matches pkt ∧ instr.instrCfg.type.toNat < 2 ^ 4 ∧
        instr.instrCfg.ipLen.toNat < 2 ^ 12 := by
  rw [IpcInstr.Answered]
  by_cases hmatches : instr.instrCfg.Matches pkt
  · rw [if_pos hmatches, isPacket_iff, and_iff_right hmatches]
  · rw [if_neg hmatches]
    exact iff_of_false (List.cons_ne_nil _ _) fun h => hmatches h.1

theorem exists_some_iff {A B : Type} {value : A} {sent : B} {P : B → Prop} :
    (∃ next sent', some (value, sent) = some (next, sent') ∧ P sent') ↔
      P sent := by
  constructor
  · rintro ⟨_, _, heq, h⟩
    cases heq
    exact h
  · exact fun h => ⟨value, sent, rfl, h⟩

/-- A packet is answered exactly when it is allowed. -/
theorem receive_answered_iff {misc : IpcMisc} (hsend : misc.instrSend ≠ 0)
    {mem bufs : OutBufs} (hintact : Intact mem bufs) :
    (∃ next sent, pkt.receive instr misc bufs = some (next, sent) ∧
      instr.Answered mem pkt sent) ↔ instr.Allows pkt := by
  have hlen : (instr.instrCfg.ipLen.setWidth 12).toNat =
      instr.instrCfg.ipLen.toNat % 2 ^ 12 := BitVec.toNat_setWidth ..
  rw [IpcIpv4Pkt.receive, process_eq hsend, IpcInstr.Allows]
  by_cases hsamples : instr.instrCfg.Samples pkt.sip pkt.dip
  · simp only [hsamples, if_true, send_eq, hlen, true_and, not_true_eq_false,
      if_false_right]
    by_cases hroom : pkt.iif < ipcIifMax ∧ sizeofIpcInstrHd + sizeofIpcCmd +
        instr.instrCfg.ipLen.toNat % 2 ^ 12 ≤ outbufSize
    · rw [if_pos hroom, Option.map_some, exists_some_iff, hintact _ hroom.1,
        answered_body_iff]
      have hchassis := iif_lt_iff.mp hroom.1
      have hfits := hroom.2
      simp only [outbufSize, sizeofIpcInstrHd, sizeofIpcCmd] at hfits ⊢
      refine and_congr_right fun _ => ?_
      omega
    · rw [if_neg hroom]
      refine iff_of_false (by simp) ?_
      rintro ⟨_, hchassis, _, hfits⟩
      refine hroom ⟨iif_lt_iff.mpr hchassis, ?_⟩
      simp only [outbufSize, sizeofIpcInstrHd, sizeofIpcCmd] at hfits ⊢
      omega
  · simp only [hsamples, if_false, false_and, not_false_eq_true]
    rw [exists_some_iff, answered_nil_iff]
    by_cases hmatches : instr.instrCfg.Matches pkt
    · simp [hmatches]
    · simp [hmatches]

theorem Intact.receive {misc : IpcMisc} (hsend : misc.instrSend ≠ 0)
    {mem bufs next : OutBufs} (hintact : Intact mem bufs)
    {sent : List (List UInt8)}
    (h : pkt.receive instr misc bufs = some (next, sent)) :
    Intact mem next := by
  rw [IpcIpv4Pkt.receive, process_eq hsend] at h
  by_cases hsamples : instr.instrCfg.Samples pkt.sip pkt.dip
  · simp only [hsamples, if_true, send_eq] at h
    obtain ⟨result, hresult, heq⟩ := Option.map_eq_some_iff.mp h
    split at hresult
    case isFalse => cases hresult
    case isTrue =>
      cases hresult
      cases heq
      exact hintact.update _ _
  · simp only [hsamples, if_false, Option.some.injEq, Prod.mk.injEq] at h
    exact h.1 ▸ hintact

end Packet

theorem allAnswered_iff (instr : IpcInstr) {misc : IpcMisc}
    (hsend : misc.instrSend ≠ 0) {mem bufs : OutBufs}
    (hintact : Intact mem bufs) (packets : List IpcIpv4Pkt) :
    instr.AllAnswered misc mem bufs packets ↔
      ∀ pkt ∈ packets, instr.Allows pkt := by
  induction packets generalizing bufs with
  | nil => exact iff_of_true trivial fun _ h => absurd h List.not_mem_nil
  | cons pkt rest ih =>
      rw [IpcInstr.AllAnswered, List.forall_mem_cons,
        ← receive_answered_iff hsend hintact]
      constructor
      · rintro ⟨next, sent, hreceive, hanswered, hrest⟩
        exact ⟨⟨next, sent, hreceive, hanswered⟩,
          (ih (hintact.receive hsend hreceive)).mp hrest⟩
      · rintro ⟨⟨next, sent, hreceive, hanswered⟩, hrest⟩
        exact ⟨next, sent, hreceive, hanswered,
          (ih (hintact.receive hsend hreceive)).mpr hrest⟩

/-- In every run from initialised buffers, every packet is answered as it
should be exactly when all of them are allowed. -/
theorem ipcRun_answered_iff (instr : IpcInstr) (misc : IpcMisc)
    (hsend : misc.instrSend ≠ 0) (mem : OutBufs) (packets : List IpcIpv4Pkt) :
    instr.AllAnswered misc mem (frcoreIpcInstrTableInit mem) packets ↔
      ∀ pkt ∈ packets, instr.Allows pkt :=
  allAnswered_iff instr hsend (intact_init mem) packets

/-- Samples the packets from 10.0.0.0/8 and sends no payload. -/
def netTen : IpcInstr :=
  ⟨⟨0, 0, 0, 0, 0x0a000000, 0xff000000, 0, 0⟩, fun _ => 0⟩

/-- A packet from the given address. -/
def fromAddress (sip : List UInt8) : List UInt8 :=
  [0x45, 0, 0, 20, 0, 0, 0, 0, 0, 0, 0, 0] ++ sip ++ [0, 0, 0, 0]

/-- A packet from 10.0.0.1. -/
def insidePkt : IpcIpv4Pkt :=
  ⟨⟨0, 0, 0, 0, 0, 0, 0, 0, 0⟩, fromAddress [10, 0, 0, 1], by decide,
    Vector.replicate 6 0⟩

/-- A packet from 2.0.0.1. -/
def outsidePkt : IpcIpv4Pkt :=
  ⟨⟨0, 0, 0, 0, 0, 0, 0, 0, 0⟩, fromAddress [2, 0, 0, 1], by decide,
    Vector.replicate 6 0⟩

/-- A packet from 10.200.3.4. -/
def secondInsidePkt : IpcIpv4Pkt :=
  ⟨⟨0, 0, 0, 0, 0, 0, 0, 0, 0⟩, fromAddress [10, 200, 3, 4], by decide,
    Vector.replicate 6 0⟩

/-- A packet from 5.0.0.1, which has no bit in common with the configured
address. -/
def strangePkt : IpcIpv4Pkt :=
  ⟨⟨0, 0, 0, 0, 0, 0, 0, 0, 0⟩, fromAddress [5, 0, 0, 1], by decide,
    Vector.replicate 6 0⟩

/-- Two packets that are sampled with one between them that is not. -/
theorem ipcRun_answered_inside :
    netTen.AllAnswered ⟨0, 1⟩ (fun _ _ => 0)
      (frcoreIpcInstrTableInit fun _ _ => 0)
      [insidePkt, strangePkt, secondInsidePkt] := by
  refine (ipcRun_answered_iff netTen ⟨0, 1⟩ (by decide) (fun _ _ => 0)
    [insidePkt, strangePkt, secondInsidePkt]).mpr ?_
  rw [List.forall_mem_cons, List.forall_mem_cons, List.forall_mem_singleton]
  exact ⟨by decide, by decide, by decide⟩

/-- The packet from outside has one bit in common with the configured
address, and is sampled. -/
theorem outsidePkt_not_answered :
    ¬ ∀ (instr : IpcInstr) (misc : IpcMisc) (mem : OutBufs)
      (packets : List IpcIpv4Pkt), misc.instrSend ≠ 0 →
      instr.AllAnswered misc mem (frcoreIpcInstrTableInit mem) packets := by
  intro h
  have hallows := (allAnswered_iff netTen (by decide)
    (intact_init fun _ _ => 0) [outsidePkt]).mp
    (h netTen ⟨0, 1⟩ (fun _ _ => 0) [outsidePkt] (by decide)) outsidePkt
    List.mem_cons_self
  exact absurd hallows (by decide)

end Barley
