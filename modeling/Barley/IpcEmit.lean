/-
The instruction packets that leave the card.  Every interface has a buffer that
starts with the header of its instructions; a sampled packet writes its command
and the payload behind it, and the buffer is sent.
-/
import Barley.IpcReceive

namespace Barley

/-- `IPC_INSTR_OUI`. -/
def ipcInstrOui : Nat := 0x2145

/-- `IPC_INSTR_PROTOCOL`. -/
def ipcInstrProtocol : Nat := 0x8062

/-- The `outbuf` of every entry of `ipc_instr_table`. -/
abbrev OutBufs := Nat → Nat → UInt8

/-- What `frcore_ipc_instr_table_init` writes into the buffer of an entry: the
24 bits of `oui`, the 11 bits of `iif`, and `protocol`. -/
def instrHdInit (buf : Nat → UInt8) (i : Nat) : Nat → UInt8 :=
  let oui := Ring.write buf 0 (Bytes.store .big 3 ipcInstrOui)
  let protocol := Ring.write oui 12 (Bytes.store .big 2 ipcInstrProtocol)
  Ring.write protocol 4 (Bytes.store .big 2
    (Bytes.load .big (Ring.read protocol 4 2) / 2 ^ 11 * 2 ^ 11 + i % 2 ^ 11))

/-- `frcore_ipc_instr_table_init`; the memory of the buffers is not cleared. -/
def frcoreIpcInstrTableInit (mem : OutBufs) : OutBufs := fun i =>
  if i < ipcIifMax then instrHdInit (mem i) i else mem i

/-- A command in memory, with the bytes behind its fields. -/
def IpcCmd.bytes (cmd : IpcCmd) (pad : Vector UInt8 6) : List UInt8 :=
  Bytes.store .big 8 cmd.pktid.toNat ++
    (Bytes.store .big 2 (cmd.dtype.toNat * 2 ^ 12 + cmd.ipLen.toNat) ++
      pad.toList)

/-- The copies of `frcore_ipc_cmd_insert` and the packet that is sent; `none`
when something outside the table or the buffers is read or written. -/
def IpcInsertion.send (insertion : IpcInsertion) (bufs : OutBufs)
    (pad : Vector UInt8 6) : Option (OutBufs × List UInt8) :=
  if insertion.iif.toNat < ipcIifMax ∧ insertion.payload.length ≤ ipcIpLenMax ∧
      insertion.outputLen ≤ outbufSize then
    let buf := Ring.write (bufs insertion.iif.toNat) sizeofIpcInstrHd
      ((insertion.cmd.bytes pad).take insertion.cmdLen ++ insertion.payload)
    some (Function.update bufs insertion.iif.toNat buf,
      Ring.read buf 0 insertion.outputLen)
  else none

/-- A received IPv4 packet without options, with what the stack holds behind
the command. -/
structure IpcIpv4Pkt where
  dpkt : IpcDpktHd
  p : List UInt8
  plain : (unpackIpv4Hd p).ih = 5
  pad : Vector UInt8 6

namespace IpcIpv4Pkt

def sip (pkt : IpcIpv4Pkt) : BitVec 32 := (unpackIpv4Hd pkt.p).saddr

def dip (pkt : IpcIpv4Pkt) : BitVec 32 := (unpackIpv4Hd pkt.p).daddr

/-- The packet is processed, with what is sent for it. -/
def receive (instr : IpcInstr) (misc : IpcMisc) (bufs : OutBufs)
    (pkt : IpcIpv4Pkt) : Option (OutBufs × List (List UInt8)) :=
  match frcoreIpcIpv4Process instr misc pkt.dpkt pkt.p with
  | none => some (bufs, [])
  | some insertion =>
      (insertion.send bufs pkt.pad).map fun sent => (sent.1, [sent.2])

/-- The number of the interface. -/
def iif (pkt : IpcIpv4Pkt) : Nat :=
  pkt.dpkt.chassis.toNat * 2 ^ 8 + pkt.dpkt.slot.toNat * 2 ^ 3 +
    pkt.dpkt.card.toNat * 2 ^ 2 + pkt.dpkt.ifid.toNat

/-- The 48 bits of the packet id. -/
def pktid (pkt : IpcIpv4Pkt) : Nat :=
  pkt.dpkt.pidH.toNat * 2 ^ 32 + pkt.dpkt.pidL.toNat

end IpcIpv4Pkt

/-- An address agrees with the configured one under a mask that is not zero. -/
def IpcInstrCfg.Matches (cfg : IpcInstrCfg) (pkt : IpcIpv4Pkt) : Prop :=
  (cfg.sipMask ≠ 0 ∧
      pkt.sip &&& cfg.sipMask = cfg.sipData &&& cfg.sipMask) ∨
    (cfg.dipMask ≠ 0 ∧
      pkt.dip &&& cfg.dipMask = cfg.dipData &&& cfg.dipMask)

instance IpcInstrCfg.decidableMatches (cfg : IpcInstrCfg) (pkt : IpcIpv4Pkt) :
    Decidable (cfg.Matches pkt) :=
  inferInstanceAs (Decidable (_ ∨ _))

/-- The header of an interface, in a buffer that held other bytes before. -/
def instrHd (buf : Nat → UInt8) (iif : Nat) : List UInt8 :=
  Bytes.store .big 3 ipcInstrOui ++ [buf 3] ++
    Bytes.store .big 2 ((buf 4).toNat / 8 * 2 ^ 11 + iif) ++
    Ring.read buf 6 6 ++ Bytes.store .big 2 ipcInstrProtocol ++
    Ring.read buf 14 2

/-- The bytes of an instruction packet: the header of the interface, a command
with the right fields, and the first bytes of the payload. -/
structure IpcInstr.IsPacket (instr : IpcInstr) (mem : OutBufs)
    (pkt : IpcIpv4Pkt) (cmd bytes : List UInt8) : Prop where
  parts : bytes = instrHd (mem pkt.iif) pkt.iif ++ (cmd ++
    (List.range instr.instrCfg.ipLen.toNat).map instr.payload)
  length : cmd.length = sizeofIpcCmd
  pktid : Bytes.load .big (cmd.take 8) =
    if instr.instrCfg.type &&& instr.instrCfg.action ≠ 0 then 2 ^ 64 - 1
    else pkt.pktid
  dtype : Bytes.load .big ((cmd.drop 8).take 2) / 2 ^ 12 =
    instr.instrCfg.type.toNat
  ipLen : Bytes.load .big ((cmd.drop 8).take 2) % 2 ^ 12 =
    instr.instrCfg.ipLen.toNat

/-- One instruction is sent for a packet that matches, and none for another. -/
def IpcInstr.Answered (instr : IpcInstr) (mem : OutBufs) (pkt : IpcIpv4Pkt)
    (sent : List (List UInt8)) : Prop :=
  if instr.instrCfg.Matches pkt then
    ∃ cmd bytes, sent = [bytes] ∧ instr.IsPacket mem pkt cmd bytes
  else sent = []

/-- Every packet of a run is answered. -/
def IpcInstr.AllAnswered (instr : IpcInstr) (misc : IpcMisc) (mem : OutBufs) :
    OutBufs → List IpcIpv4Pkt → Prop
  | _, [] => True
  | bufs, pkt :: rest =>
      ∃ next sent, pkt.receive instr misc bufs = some (next, sent) ∧
        instr.Answered mem pkt sent ∧
        IpcInstr.AllAnswered instr misc mem next rest

/-- A packet that matches has a bit of its address in common with the data
under the mask, its interface is in the table, the type has four bits and the
instruction fits in the buffer; one that does not match has no such bit. -/
def IpcInstr.Allows (instr : IpcInstr) (pkt : IpcIpv4Pkt) : Prop :=
  if instr.instrCfg.Matches pkt then
    instr.instrCfg.Samples pkt.sip pkt.dip ∧ pkt.dpkt.chassis.toNat < 4 ∧
      instr.instrCfg.type.toNat < 2 ^ 4 ∧
      sizeofIpcInstrHd + sizeofIpcCmd + instr.instrCfg.ipLen.toNat ≤ outbufSize
  else ¬ instr.instrCfg.Samples pkt.sip pkt.dip

instance IpcInstr.decidableAllows (instr : IpcInstr) (pkt : IpcIpv4Pkt) :
    Decidable (instr.Allows pkt) := by
  unfold IpcInstr.Allows
  infer_instance

end Barley
