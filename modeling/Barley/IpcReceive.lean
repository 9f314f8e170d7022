/-
Instructions that the core sends for received IPC packets.  The host says which
packets to sample and what payload to send, and every sampled packet fills the
output buffer of the interface that its header names.
-/
import Barley.ByteRing
import Barley.GuardedRuns
import Barley.IpcHeader

namespace Barley

/-- `IPC_IP_LEN_MAX`. -/
def ipcIpLenMax : Nat := 2048

/-- `IPC_IIF_MAX`. -/
def ipcIifMax : Nat := 0x400

/-- `INSTR_PAYLOAD_SZ`. -/
def instrPayloadSz : Nat := 32

/-- The size of an `outbuf`. -/
def outbufSize : Nat := 2048

/-- `sizeof(ipc_instr_hd_t)`. -/
def sizeofIpcInstrHd : Nat := 16

/-- `sizeof(ipc_cmd_t)`. -/
def sizeofIpcCmd : Nat := 16

/-- `sizeof(ipc_instr_cfg_t)`. -/
def sizeofIpcInstrCfg : BitVec 16 := 32

/-- `sizeof(ipc_payload_set_in_t)`. -/
def sizeofIpcPayloadSetIn : BitVec 16 := 40

/-- `PROTO_VLAN`. -/
def protoVlan : Nat := 0x8100

/-- `PROTO_IPV4`. -/
def protoIpv4 : Nat := 0x0800

/-- `ipc_instr_cfg_t`. -/
structure IpcInstrCfg where
  txPort : BitVec 32
  action : BitVec 32
  type : BitVec 32
  ipLen : BitVec 32
  sipData : BitVec 32
  sipMask : BitVec 32
  dipData : BitVec 32
  dipMask : BitVec 32

/-- `ipc_instr`.  The bytes are numbered from the start of the payload, and
those from `IPC_IP_LEN_MAX` on lie behind it. -/
structure IpcInstr where
  instrCfg : IpcInstrCfg
  payload : Nat → UInt8

def IpcInstr.zero : IpcInstr := ⟨⟨0, 0, 0, 0, 0, 0, 0, 0⟩, fun _ => 0⟩

/-- `ipc_payload_set_in_t`. -/
structure IpcPayloadSetIn where
  data : List UInt8
  index : BitVec 64
  length : data.length = instrPayloadSz

/-- Where the chunk goes; the product has 64 bits. -/
def IpcPayloadSetIn.offset (payloadSet : IpcPayloadSetIn) : Nat :=
  payloadSet.index.toNat * instrPayloadSz % 2 ^ 64

/-- The chunk lies inside the payload. -/
def IpcPayloadSetIn.Inside (payloadSet : IpcPayloadSetIn) : Prop :=
  payloadSet.offset + instrPayloadSz ≤ ipcIpLenMax

instance (payloadSet : IpcPayloadSetIn) : Decidable payloadSet.Inside :=
  inferInstanceAs (Decidable (_ ≤ _))

/-- `frcore_cmd_ipc_instr_payload_set`.  It succeeds wherever the chunk goes.
A chunk outside the payload is written over other memory (an index can wrap to
`instr_cfg`), and `ipc_instr` is no longer known. -/
def frcoreCmdIpcInstrPayloadSet (plen : BitVec 16)
    (payloadSet : IpcPayloadSetIn) (instr : IpcInstr) :
    Fre × Option IpcInstr :=
  if sizeofIpcPayloadSetIn ≠ plen then (.fail, some instr)
  else
    let data := swapBuff .big (instrPayloadSz >>> 3) payloadSet.data
    if payloadSet.Inside then
      (.success, some { instr with
        payload := Ring.write instr.payload payloadSet.offset data })
    else (.success, none)

/-- `frcore_cmd_ipc_instr_set`. -/
def frcoreCmdIpcInstrSet (plen : BitVec 16) (instrp : IpcInstrCfg)
    (instr : IpcInstr) : Fre × IpcInstr :=
  if sizeofIpcInstrCfg ≠ plen then (.fail, instr)
  else if ipcIpLenMax < instrp.ipLen.toNat then (.param, instr)
  else (.success, { instr with instrCfg := instrp })

/-- `ipc_cmd_t`. -/
structure IpcCmd where
  pktid : BitVec 64
  dtype : BitVec 4
  ipLen : BitVec 12

/-- What `frcore_ipc_cmd_insert` writes: the entry of `ipc_instr_table`, and
the bytes behind the header in its `outbuf`. -/
structure IpcInsertion where
  iif : BitVec 16
  cmd : IpcCmd
  cmdLen : Nat
  payload : List UInt8

/-- `output_len`. -/
def IpcInsertion.outputLen (insertion : IpcInsertion) : Nat :=
  sizeofIpcInstrHd + insertion.cmdLen + insertion.payload.length

/-- `frcore_ipc_cmd_insert`. -/
def frcoreIpcCmdInsert (iif : BitVec 16) (cmd : IpcCmd)
    (payload : Nat → UInt8) : IpcInsertion where
  iif := iif
  cmd := cmd
  cmdLen := if cmd.dtype = 0 then 16 else sizeofIpcCmd
  payload :=
    if 0 < cmd.ipLen.toNat then (List.range cmd.ipLen.toNat).map payload
    else []

/-- The condition of `frcore_ipc_ipv4_instr_sample`. -/
def IpcInstrCfg.Samples (cfg : IpcInstrCfg) (sip dip : BitVec 32) : Prop :=
  (sip &&& cfg.sipMask) &&& (cfg.sipData &&& cfg.sipMask) ≠ 0 ∨
    (dip &&& cfg.dipMask) &&& (cfg.dipData &&& cfg.dipMask) ≠ 0

instance (cfg : IpcInstrCfg) (sip dip : BitVec 32) :
    Decidable (cfg.Samples sip dip) :=
  inferInstanceAs (Decidable (_ ∨ _))

/-- `cmd` of `frcore_ipc_ipv4_instr_sample`. -/
def sampleCmd (cfg : IpcInstrCfg) (dpkt : IpcDpktHd) : IpcCmd where
  pktid :=
    if cfg.type &&& cfg.action ≠ 0 then 0xffffffffffffffff
    else (dpkt.pidH.setWidth 64 <<< 32) ||| dpkt.pidL.setWidth 64
  dtype := cfg.type.setWidth 4
  ipLen := cfg.ipLen.setWidth 12

/-- `iif` of `frcore_ipc_ipv4_instr_sample`. -/
def IpcDpktHd.sampleIif (dpkt : IpcDpktHd) : BitVec 16 :=
  (dpkt.chassis.setWidth 16 <<< 8) ||| (dpkt.slot.setWidth 16 <<< 3) |||
    (dpkt.card.setWidth 16 <<< 2) ||| dpkt.ifid.setWidth 16

/-- `frcore_ipc_ipv4_instr_sample`, with what it inserts. -/
def frcoreIpcIpv4InstrSample (instr : IpcInstr) (dpkt : IpcDpktHd)
    (sip dip : BitVec 32) : Option IpcInsertion :=
  if instr.instrCfg.Samples sip dip then
    some (frcoreIpcCmdInsert dpkt.sampleIif (sampleCmd instr.instrCfg dpkt)
      instr.payload)
  else none

/-- The fields of `ipc_ipv4_hd_t` that are used. -/
structure IpcIpv4Hd where
  ih : BitVec 4
  saddr : BitVec 32
  daddr : BitVec 32

/-- The five words of the header. -/
def unpackIpv4Hd (p : List UInt8) : IpcIpv4Hd :=
  let word0 := unpackU32 p
  let word1 := unpackU32 word0.2
  let word2 := unpackU32 word1.2
  let word3 := unpackU32 word2.2
  let word4 := unpackU32 word3.2
  { ih := (BitVec.ofNat 32 word0.1 >>> 24).setWidth 4
    saddr := BitVec.ofNat 32 word3.1
    daddr := BitVec.ofNat 32 word4.1 }

/-- The switches of `ipc_misc` that decide whether a packet is sampled. -/
structure IpcMisc where
  smacCheck : BitVec 8
  instrSend : BitVec 8

/-- `frcore_ipc_ipv4_process`, with what it inserts. -/
def frcoreIpcIpv4Process (instr : IpcInstr) (misc : IpcMisc)
    (dpkt : IpcDpktHd) (p : List UInt8) : Option IpcInsertion :=
  let hd := unpackIpv4Hd p
  if hd.ih ≠ 5 then none
  else if misc.instrSend ≠ 0 then
    frcoreIpcIpv4InstrSample instr dpkt hd.saddr hd.daddr
  else none

/-- A received packet: whether its port is on, whether the hardware reports an
error, and its bytes. -/
structure IpcWork where
  rxOn : Bool
  rcvError : Bool
  ether : List UInt8

/-- The protocol behind up to two VLAN tags, with the rest of the packet. -/
def ipcProtocol (ether : List UInt8) : Nat × List UInt8 :=
  let protocol := unpackU16 (ether.drop 12)
  if protocol.1 = protoVlan then
    let ovid := unpackU16 protocol.2
    let protocol := unpackU16 ovid.2
    if protocol.1 = protoVlan then
      let ivid := unpackU16 protocol.2
      unpackU16 ivid.2
    else protocol
  else protocol

/-- Whether `psmac` is zero. -/
def smacZero (ether : List UInt8) : Bool :=
  (List.range 6).all fun k => ether.getD (6 + k) 0 = 0

/-- `frcore_ipc_work_process`, with what it inserts.  The expected header and
the packet ids are only counted. -/
def frcoreIpcWorkProcess (instr : IpcInstr) (misc : IpcMisc) (work : IpcWork) :
    Option IpcInsertion :=
  if !work.rxOn then none
  else if work.rcvError then none
  else if misc.smacCheck ≠ 0 ∧ smacZero work.ether then none
  else
    let protocol := ipcProtocol work.ether
    if protocol.1 = protoIpv4 then
      frcoreIpcIpv4Process instr misc (unpackDpkt work.ether) protocol.2
    else none

/-- The index is below the number of entries, the payload that is read lies
inside the one that is kept, and the instruction fits in the buffer. -/
structure IpcInsertion.Safe (insertion : IpcInsertion) : Prop where
  index : insertion.iif.toNat < ipcIifMax
  reads : insertion.payload.length ≤ ipcIpLenMax
  fits : insertion.outputLen ≤ outbufSize

/-- The packet is sampled. -/
structure IpcWork.Sampled (work : IpcWork) (misc : IpcMisc) (cfg : IpcInstrCfg) :
    Prop where
  rxOn : work.rxOn = true
  received : work.rcvError = false
  smac : misc.smacCheck ≠ 0 → smacZero work.ether = false
  ipv4 : (ipcProtocol work.ether).1 = protoIpv4
  plain : (unpackIpv4Hd (ipcProtocol work.ether).2).ih = 5
  sends : misc.instrSend ≠ 0
  selected : cfg.Samples (unpackIpv4Hd (ipcProtocol work.ether).2).saddr
    (unpackIpv4Hd (ipcProtocol work.ether).2).daddr

/-- Success means that the chunk lies inside the payload, and without success
nothing is written. -/
structure IpcPayloadSetIn.Safe (payloadSet : IpcPayloadSetIn)
    (plen : BitVec 16) (instr : IpcInstr) : Prop where
  inside : (frcoreCmdIpcInstrPayloadSet plen payloadSet instr).1 = .success →
    payloadSet.Inside
  nothing : (frcoreCmdIpcInstrPayloadSet plen payloadSet instr).1 ≠ .success →
    (frcoreCmdIpcInstrPayloadSet plen payloadSet instr).2 = some instr

/-- What happens to `ipc_instr`: the two commands that change it, and the
packets that are answered from it. -/
inductive IpcEvent where
  | instrSet (plen : BitVec 16) (instrp : IpcInstrCfg)
  | instrPayloadSet (plen : BitVec 16) (payloadSet : IpcPayloadSetIn)
  | packet (misc : IpcMisc) (work : IpcWork)

namespace IpcEvent

/-- `ipc_instr` after an event, unless it is no longer known. -/
def step (instr : IpcInstr) : IpcEvent → Option IpcInstr
  | .instrSet plen instrp => some (frcoreCmdIpcInstrSet plen instrp instr).2
  | .instrPayloadSet plen payloadSet =>
      (frcoreCmdIpcInstrPayloadSet plen payloadSet instr).2
  | .packet _ _ => some instr

/-- The instruction for a packet and the chunk of a command stay inside their
memory. -/
def Safe (instr : IpcInstr) : IpcEvent → Prop
  | .instrSet _ _ => True
  | .instrPayloadSet plen payloadSet => payloadSet.Safe plen instr
  | .packet misc work => ∀ insertion,
      frcoreIpcWorkProcess instr misc work = some insertion → insertion.Safe

/-- A chunk comes in a command of the wrong size or goes inside the payload.
A packet is not sampled, or it names one of the first four chassis and the
configured length leaves room for the header and the command. -/
def Allowed (instr : IpcInstr) : IpcEvent → Prop
  | .instrSet _ _ => True
  | .instrPayloadSet plen payloadSet =>
      plen = sizeofIpcPayloadSetIn → payloadSet.Inside
  | .packet misc work =>
      work.Sampled misc instr.instrCfg →
        (unpackDpkt work.ether).chassis.toNat < 4 ∧
        sizeofIpcInstrHd + sizeofIpcCmd + instr.instrCfg.ipLen.toNat ≤
          outbufSize

end IpcEvent

section Index

/-- The fields of the header, put together. -/
theorem sampleIif_eq (dpkt : IpcDpktHd) : dpkt.sampleIif =
    (dpkt.chassis ++ (dpkt.slot ++ dpkt.card ++ dpkt.ifid)).setWidth 16 := by
  rw [BitVec.setWidth_append_eq_shiftLeft_setWidth_or]
  simp only [BitVec.setWidth_append_eq_shiftLeft_setWidth_or,
    BitVec.shiftLeft_or_distrib, ← BitVec.shiftLeft_add]
  rw [IpcDpktHd.sampleIif, BitVec.or_assoc, BitVec.or_assoc, BitVec.or_assoc]

/-- The index is in range exactly for the first four chassis. -/
theorem sampleIif_lt_iff (dpkt : IpcDpktHd) :
    dpkt.sampleIif.toNat < ipcIifMax ↔ dpkt.chassis.toNat < 4 := by
  have hlow : (dpkt.slot ++ dpkt.card ++ dpkt.ifid).toNat < 2 ^ 8 :=
    BitVec.isLt _
  have hchassis : dpkt.chassis.toNat < 2 ^ 4 := dpkt.chassis.isLt
  rw [sampleIif_eq, BitVec.toNat_setWidth, BitVec.toNat_append,
    ← Nat.shiftLeft_add_eq_or_of_lt hlow, Nat.shiftLeft_eq, ipcIifMax]
  omega

end Index

section Sampling

variable {instr : IpcInstr} {misc : IpcMisc} {work : IpcWork}

/-- What a sampled packet inserts. -/
def IpcWork.insertion (work : IpcWork) (instr : IpcInstr) : IpcInsertion :=
  frcoreIpcCmdInsert (unpackDpkt work.ether).sampleIif
    (sampleCmd instr.instrCfg (unpackDpkt work.ether)) instr.payload

theorem frcoreIpcIpv4Process_eq_some_iff {dpkt : IpcDpktHd} {p : List UInt8}
    {insertion : IpcInsertion} :
    frcoreIpcIpv4Process instr misc dpkt p = some insertion ↔
      (unpackIpv4Hd p).ih = 5 ∧ misc.instrSend ≠ 0 ∧
      instr.instrCfg.Samples (unpackIpv4Hd p).saddr (unpackIpv4Hd p).daddr ∧
      frcoreIpcCmdInsert dpkt.sampleIif (sampleCmd instr.instrCfg dpkt)
        instr.payload = insertion := by
  unfold frcoreIpcIpv4Process frcoreIpcIpv4InstrSample
  simp

/-- Exactly the sampled packets insert an instruction. -/
theorem frcoreIpcWorkProcess_eq_some_iff {insertion : IpcInsertion} :
    frcoreIpcWorkProcess instr misc work = some insertion ↔
      work.Sampled misc instr.instrCfg ∧ work.insertion instr = insertion := by
  unfold frcoreIpcWorkProcess
  constructor
  · intro h
    split at h
    · cases h
    · rename_i hon
      split at h
      · cases h
      · rename_i herror
        split at h
        · cases h
        · rename_i hsmac
          simp only at h
          split at h
          · rename_i hipv4
            obtain ⟨hih, hsend, hselect, hinsertion⟩ :=
              frcoreIpcIpv4Process_eq_some_iff.mp h
            refine ⟨⟨by simpa using hon, by simpa using herror, ?_, hipv4, hih,
              hsend, hselect⟩, hinsertion⟩
            simpa using hsmac
          · cases h
  · rintro ⟨h, hinsertion⟩
    have hsmac : ¬ (misc.smacCheck ≠ 0 ∧ smacZero work.ether = true) := by
      simpa using h.smac
    rw [h.rxOn, h.received, if_neg hsmac]
    simp only [h.ipv4, Bool.not_true, Bool.false_eq_true, if_false, if_true]
    exact frcoreIpcIpv4Process_eq_some_iff.mpr
      ⟨h.plain, h.sends, h.selected, hinsertion⟩

theorem length_insertion (hlen : instr.instrCfg.ipLen.toNat ≤ ipcIpLenMax) :
    (work.insertion instr).payload.length = instr.instrCfg.ipLen.toNat := by
  have hfits : (instr.instrCfg.ipLen.setWidth 12).toNat =
      instr.instrCfg.ipLen.toNat := by
    rw [BitVec.toNat_setWidth, Nat.mod_eq_of_lt]
    exact Nat.lt_of_le_of_lt hlen (by decide)
  simp only [IpcWork.insertion, frcoreIpcCmdInsert, sampleCmd, hfits]
  split
  · rw [List.length_map, List.length_range]
  · rename_i hzero
    exact (Nat.eq_zero_of_not_pos hzero).symm

theorem outputLen_insertion
    (hlen : instr.instrCfg.ipLen.toNat ≤ ipcIpLenMax) :
    (work.insertion instr).outputLen =
      sizeofIpcInstrHd + sizeofIpcCmd + instr.instrCfg.ipLen.toNat := by
  have hcmd : (work.insertion instr).cmdLen = sizeofIpcCmd := by
    simp only [IpcWork.insertion, frcoreIpcCmdInsert]
    split <;> rfl
  rw [IpcInsertion.outputLen, length_insertion hlen, hcmd]

/-- An insertion is safe exactly for the first four chassis and a length that
leaves room for the header and the command. -/
theorem safe_insertion_iff
    (hlen : instr.instrCfg.ipLen.toNat ≤ ipcIpLenMax) :
    (work.insertion instr).Safe ↔
      (unpackDpkt work.ether).chassis.toNat < 4 ∧
      sizeofIpcInstrHd + sizeofIpcCmd + instr.instrCfg.ipLen.toNat ≤
        outbufSize := by
  have hout := @outputLen_insertion instr work hlen
  rw [← hout, ← sampleIif_lt_iff]
  constructor
  · intro h
    exact ⟨h.index, h.fits⟩
  · rintro ⟨hindex, hfits⟩
    exact ⟨hindex, (length_insertion hlen).trans_le hlen, hfits⟩

end Sampling

section Events

variable {instr : IpcInstr}

/-- No event that leaves `ipc_instr` known sets a length above
`IPC_IP_LEN_MAX`. -/
theorem ipLen_step {event : IpcEvent} {next : IpcInstr}
    (h : instr.instrCfg.ipLen.toNat ≤ ipcIpLenMax)
    (hstep : IpcEvent.step instr event = some next) :
    next.instrCfg.ipLen.toNat ≤ ipcIpLenMax := by
  cases event with
  | instrSet plen instrp =>
      rw [IpcEvent.step, Option.some.injEq] at hstep
      subst hstep
      unfold frcoreCmdIpcInstrSet
      split
      · exact h
      · split
        · exact h
        · exact Nat.le_of_not_lt ‹_›
  | instrPayloadSet plen payloadSet =>
      rw [IpcEvent.step, frcoreCmdIpcInstrPayloadSet] at hstep
      split at hstep
      · cases hstep
        exact h
      · -- a chunk inside the payload leaves the configuration alone
        simp only at hstep
        split at hstep
        · cases hstep
          exact h
        · cases hstep
  | packet misc work =>
      cases hstep
      exact h

theorem payloadSet_safe_iff (plen : BitVec 16) (payloadSet : IpcPayloadSetIn)
    (instr : IpcInstr) : payloadSet.Safe plen instr ↔
      (plen = sizeofIpcPayloadSetIn → payloadSet.Inside) := by
  by_cases hplen : sizeofIpcPayloadSetIn = plen
  · have hsuccess : (frcoreCmdIpcInstrPayloadSet plen payloadSet instr).1 =
        .success := by
      rw [frcoreCmdIpcInstrPayloadSet, if_neg (not_not_intro hplen)]
      simp only
      split <;> rfl
    constructor
    · exact fun h _ => h.inside hsuccess
    · exact fun h => ⟨fun _ => h hplen.symm, fun hfail => absurd hsuccess hfail⟩
  · have hfail : frcoreCmdIpcInstrPayloadSet plen payloadSet instr =
        (.fail, some instr) := by
      rw [frcoreCmdIpcInstrPayloadSet, if_pos hplen]
    refine iff_of_true ⟨?_, ?_⟩ fun h => absurd h.symm hplen
    · rw [hfail]
      exact Fre.noConfusion
    · rw [hfail]
      exact fun _ => rfl

theorem packet_safe_iff (hlen : instr.instrCfg.ipLen.toNat ≤ ipcIpLenMax)
    (misc : IpcMisc) (work : IpcWork) :
    IpcEvent.Safe instr (.packet misc work) ↔
      IpcEvent.Allowed instr (.packet misc work) := by
  rw [IpcEvent.Allowed, ← safe_insertion_iff hlen]
  constructor
  · intro h hsampled
    exact h _ (frcoreIpcWorkProcess_eq_some_iff.mpr ⟨hsampled, rfl⟩)
  · intro h insertion hprocess
    obtain ⟨hsampled, rfl⟩ := frcoreIpcWorkProcess_eq_some_iff.mp hprocess
    exact h hsampled

end Events

/-- From the zeroed `ipc_instr` on, every event of a run is handled safely
exactly when every event is allowed in the state in which it occurs. -/
theorem ipcReceive_safe_iff (events : List IpcEvent) :
    GuardedRuns.Each IpcEvent.step IpcEvent.Safe IpcInstr.zero events ↔
      GuardedRuns.Each IpcEvent.step IpcEvent.Allowed IpcInstr.zero events := by
  refine GuardedRuns.each_iff_each
    (fun instr _ => instr.instrCfg.ipLen.toNat ≤ ipcIpLenMax) ?_
    (fun _ _ _ _ hlen _ hstep => ipLen_step hlen hstep) (Nat.zero_le _)
  intro instr event rest hlen
  cases event with
  | instrSet plen instrp => exact Iff.rfl
  | instrPayloadSet plen payloadSet => exact payloadSet_safe_iff plen payloadSet instr
  | packet misc work => exact packet_safe_iff hlen misc work

section Example

/-- The command samples every packet from an odd address and sends no
payload. -/
def oddSource : IpcEvent :=
  .instrSet sizeofIpcInstrCfg ⟨0, 0, 0, 0, 1, 1, 0, 0⟩

/-- An IPv4 packet of chassis 4 from an odd address. -/
def chassisFour : IpcWork where
  rxOn := true
  rcvError := false
  ether := [0, 0, 0, 0, 0, 0, 0x40, 0, 0, 0, 0, 0, 8, 0,
    0x45, 0, 0, 20, 0, 0, 0, 0, 0, 0, 0, 0, 0, 0, 0, 1, 0, 0, 0, 0]

/-- The index of its instruction is beyond the table. -/
theorem chassisFour_not_safe :
    ¬ ∀ events,
      GuardedRuns.Each IpcEvent.step IpcEvent.Safe IpcInstr.zero events := by
  intro hsafe
  obtain ⟨-, hnext⟩ := hsafe [oddSource, .packet ⟨0, 1⟩ chassisFour]
  obtain ⟨hpacket, -⟩ := hnext _ rfl
  have hindex := (hpacket _ (frcoreIpcWorkProcess_eq_some_iff.mpr
    ⟨⟨rfl, rfl, nofun, rfl, rfl, by decide, by decide⟩, rfl⟩)).index
  exact absurd hindex (by decide)

end Example

end Barley
