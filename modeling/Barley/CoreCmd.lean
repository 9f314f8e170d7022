/-
Commands from the host to the card.  Every call links a request into one list
and waits until the card's response to it has come or the time is over; the
calls, the card and the responses take their steps in any order.
-/
import Barley.CircList
import Barley.FrcTypes
import Mathlib.Data.BitVec

namespace Barley

/-- `FRC_CORE_CMD_ARG_MAX`. -/
def frcCoreCmdArgMax : Nat := 512

/-- `FRCORE_CMD_INPUT_MAX`. -/
def frcoreCmdInputMax : Nat := 64

/-- `FRCDRV_CORE_REQ_TIMEOUT`. -/
def frcdrvCoreReqTimeout : Nat := 300

/-- `FRC_CMD_RESPOND_DATA_SZ`. -/
def frcCmdRespondDataSz : Nat := 1024

/-- `CMD_TYPE_MAX`. -/
def cmdTypeMax : Nat := 5

/-- `frcore_cmd_t`. -/
structure FrcoreCmd where
  seq : BitVec 32
  len : BitVec 16
  type : BitVec 4
  cmd : BitVec 12
deriving DecidableEq, Repr

/-- `frc_cmd_respond_t`. -/
structure FrcCmdRespond where
  ret : BitVec 16
  len : BitVec 16
  seq : BitVec 32
  data : List UInt8
  length : data.length = frcCmdRespondDataSz

def FrcCmdRespond.zero : FrcCmdRespond :=
  ⟨0, 0, 0, List.replicate frcCmdRespondDataSz 0, List.length_replicate⟩

/-- `CORE_REQ_WAITING` and `CORE_REQ_RESPOND`. -/
inductive CoreReqState where
  | waiting
  | respond
deriving DecidableEq, Repr

/-- `frcdrv_core_req_t`, without its node. -/
structure CoreReq where
  seq : BitVec 32
  state : CoreReqState
  respond : FrcCmdRespond

def CoreReq.zero : CoreReq := ⟨0, .waiting, .zero⟩

/-- The value of a return code. -/
def Fre.value (fre : Fre) : Nat := fre.ctorIdx

/-- A node of the list: `frcdrv_core_req_head`, or that of a request. -/
inductive CoreReqNode where
  | head
  | req (addr : Nat)
deriving DecidableEq, Repr

section Card

/-- `frcore_cmd_fn_t`: from the length of the parameter to the return value,
the length of the output and the output. -/
structure FrcoreCmdFn where
  run : BitVec 16 → Int × BitVec 16 × List UInt8
  length : ∀ plen, (run plen).2.2.length = frcCmdRespondDataSz

/-- `frcore_cmd_set_t`, with `none` for a command that is not registered. -/
structure FrcoreCmdSet where
  max : Nat
  vector : Nat → Option FrcoreCmdFn

/-- The response to a command that no function takes. -/
def FrcCmdRespond.refuse (cmd : FrcoreCmd) (fre : Fre) : FrcCmdRespond :=
  { FrcCmdRespond.zero with seq := cmd.seq, ret := BitVec.ofNat 16 fre.value }

/-- The response that `frcore_process_frc_cmd` sends. -/
def frcoreProcessFrcCmd (cmdset : Nat → FrcoreCmdSet) (cmd : FrcoreCmd) :
    FrcCmdRespond :=
  if cmdTypeMax ≤ cmd.type.toNat then .refuse cmd .unsupport
  else if (cmdset cmd.type.toNat).max ≤ cmd.cmd.toNat then
    .refuse cmd .unsupport
  else
    match (cmdset cmd.type.toNat).vector cmd.cmd.toNat with
    | none => .refuse cmd .unregister
    | some fn =>
        { ret := BitVec.ofInt 16 (fn.run cmd.len).1
          len := (fn.run cmd.len).2.1
          seq := cmd.seq
          data := (fn.run cmd.len).2.2
          length := fn.length cmd.len }

end Card

/-- `frcdrv_core_req_respond` on the nodes that its loop visits: whether the
response came too late, and the requests. -/
def frcdrvCoreReqRespond (respond : FrcCmdRespond) :
    List CoreReqNode → (Nat → CoreReq) → Bool × (Nat → CoreReq)
  | [], reqs => (true, reqs)
  | .head :: rest, reqs => frcdrvCoreReqRespond respond rest reqs
  | .req r :: rest, reqs =>
      if (reqs r).seq = respond.seq then
        (false, (frcdrvCoreReqRespond respond rest (Function.update reqs r
          { reqs r with respond := respond, state := .respond })).2)
      else frcdrvCoreReqRespond respond rest reqs

/-- The arguments of `frcdrv_core_cmd`; `olen` is what the pointer points to,
and `none` stands for `NULL`. -/
structure CoreCmdArgs where
  type : BitVec 16
  cmd : BitVec 16
  ilen : BitVec 16
  olen : Option (BitVec 16)
  output : Option (Nat → UInt8)

/-- A return value: a code of the host, or the `ret` of a response. -/
inductive CoreCmdRv where
  | own (fre : Fre)
  | card (ret : BitVec 16)
deriving DecidableEq, Repr

def CoreCmdRv.value : CoreCmdRv → Nat
  | .own fre => fre.value
  | .card ret => ret.toNat

/-- What a call does next.  `remove` is the label `frcdrv_core_cmd_error` with a
request to free. -/
inductive CoreCmdPc where
  | entry
  | mallocReq
  | mallocPkt (req : Nat)
  | add (req : Nat)
  | send (req : Nat)
  | wait (req : Nat) (i : Nat)
  | check (req : Nat)
  | take (req : Nat)
  | copy (req : Nat) (rv : CoreCmdRv)
  | remove (req : Nat) (rv : CoreCmdRv)
  | free (req : Nat) (rv : CoreCmdRv)
  | ret (rv : CoreCmdRv)

/-- The request that the call has allocated and not freed. -/
def CoreCmdPc.req : CoreCmdPc → Option Nat
  | .entry | .mallocReq | .ret _ => none
  | .mallocPkt req | .add req | .send req | .wait req _ | .check req
  | .take req | .copy req _ | .remove req _ | .free req _ => some req

/-- A call of `frcdrv_core_cmd`.  `olen` and `output` are the memory of the
caller and `pkt` is `cpkt->cmd`; `number` counts the requests up to that of the
call, and is 0 before it is added. -/
structure CoreCmdCall where
  args : CoreCmdArgs
  olen : Option (BitVec 16)
  output : Option (Nat → UInt8)
  outLen : Nat
  pkt : FrcoreCmd
  pc : CoreCmdPc
  number : Nat

namespace CoreCmdCall

def init (args : CoreCmdArgs) : CoreCmdCall where
  args := args
  olen := args.olen
  output := args.output
  outLen := 0
  pkt := ⟨0, 0, 0, 0⟩
  pc := .entry
  number := 0

/-- The request that the call has added and not removed. -/
def added (call : CoreCmdCall) : Option Nat :=
  match call.pc with
  | .send req | .wait req _ | .check req | .take req | .copy req _ => some req
  | .remove req _ => if call.number = 0 then none else some req
  | _ => none

/-- The request that the call has allocated and not added. -/
def loose (call : CoreCmdCall) : Option Nat :=
  match call.pc with
  | .mallocPkt req | .add req => some req
  | .remove req _ => if call.number = 0 then some req else none
  | _ => none

/-- The checks of the arguments. -/
def enter (call : CoreCmdCall) : CoreCmdCall :=
  if frcCoreCmdArgMax < call.args.ilen.toNat then
    { call with pc := .ret (.own .param) }
  else
    let call := { call with outLen := (call.olen.map BitVec.toNat).getD 0 }
    if frcoreCmdInputMax < call.args.ilen.toNat then
      { call with pc := .ret (.own .param) }
    else { call with pc := .mallocReq }

/-- The command is put into the packet. -/
def pack (call : CoreCmdCall) (seq : BitVec 32) : CoreCmdCall :=
  { call with pkt :=
    { seq
      len := call.args.ilen
      type := call.args.type.setWidth 4
      cmd := call.args.cmd.setWidth 12 } }

/-- One round of the loop that waits for the response. -/
def wait (call : CoreCmdCall) (req i : Nat) (state : CoreReqState) :
    CoreCmdCall :=
  if i = frcdrvCoreReqTimeout then
    { call with pc := .remove req (.own .timeout) }
  else if state = .respond then { call with pc := .check req }
  else { call with pc := .wait req (i + 1) }

def check (call : CoreCmdCall) (req : Nat) (respond : FrcCmdRespond) :
    CoreCmdCall :=
  if call.outLen < respond.len.toNat then
    { call with pc := .remove req (.own .exceed) }
  else { call with pc := .take req }

def take (call : CoreCmdCall) (req : Nat) (respond : FrcCmdRespond) :
    CoreCmdCall :=
  let rv := CoreCmdRv.card respond.ret
  if rv.value = Fre.success.value ∧ call.olen.isSome ∧ call.output.isSome then
    { call with pc := .copy req rv }
  else { call with pc := .remove req rv }

/-- The output is copied; `beyond` is the memory behind the response. -/
def copy (call : CoreCmdCall) (req : Nat) (rv : CoreCmdRv)
    (respond : FrcCmdRespond) (beyond : Nat → UInt8) : CoreCmdCall :=
  { call with
    olen := some respond.len
    output := call.output.map fun output k =>
      if k < respond.len.toNat then (respond.data[k]?).getD (beyond k)
      else output k
    pc := .remove req rv }

end CoreCmdCall

/-- The memory of the host and its calls.  `wire` has the requests with a
command or a response on the way, `commands` what was sent and `answers` what
the card has answered; `listed` are the requests that were added and not
removed, in their order, `made` counts those that were added and `pktFails` the
failed allocations of a packet. -/
structure CoreCmdState (C : Type) where
  links : CircList.Links CoreReqNode
  reqs : Nat → CoreReq
  seq : BitVec 32
  calls : C → CoreCmdCall
  crashed : Bool
  wire : List Nat
  commands : Nat → FrcoreCmd
  answers : Nat → Option FrcCmdRespond
  listed : List Nat
  made : Nat
  pktFails : Nat

section Steps

variable {C : Type} [DecidableEq C]

namespace CoreCmdState

def setCall (s : CoreCmdState C) (c : C) (call : CoreCmdCall) :
    CoreCmdState C :=
  { s with calls := Function.update s.calls c call }

def goto (s : CoreCmdState C) (c : C) (pc : CoreCmdPc) : CoreCmdState C :=
  s.setCall c { s.calls c with pc }

/-- The request is allocated and filled with zeros. -/
def mallocReq (s : CoreCmdState C) (c : C) : Option Nat → CoreCmdState C
  | none => s.goto c (.ret (.own .memory))
  | some req =>
      { s.goto c (.mallocPkt req) with
        links :=
          { next := Function.update s.links.next (.req req) none
            prev := Function.update s.links.prev (.req req) none }
        reqs := Function.update s.reqs req .zero }

def mallocPkt (s : CoreCmdState C) (c : C) (req : Nat) (ok : Bool) :
    CoreCmdState C :=
  if ok then s.goto c (.add req)
  else
    { s.goto c (.remove req (.own .memory)) with pktFails := s.pktFails + 1 }

/-- `frcdrv_core_req_add`. -/
def add (s : CoreCmdState C) (c : C) (req : Nat) : CoreCmdState C :=
  match s.links.addTail (.req req) .head with
  | none => { s with crashed := true }
  | some links =>
      { s.setCall c { s.calls c with pc := .send req, number := s.made + 1 } with
        links
        seq := s.seq + 1
        reqs := Function.update s.reqs req
          { s.reqs req with seq := s.seq + 1, state := .waiting }
        listed := s.listed ++ [req]
        made := s.made + 1 }

def send (s : CoreCmdState C) (c : C) (req : Nat) (ok : Bool) :
    CoreCmdState C :=
  let call := (s.calls c).pack (s.reqs req).seq
  if ok then
    { s.setCall c { call with pc := .wait req 0 } with
      wire := call.number :: s.wire
      commands := Function.update s.commands call.number call.pkt }
  else s.setCall c { call with pc := .remove req (.own .fail) }

/-- `frcdrv_core_req_remove`. -/
def remove (s : CoreCmdState C) (c : C) (req : Nat) (rv : CoreCmdRv) :
    CoreCmdState C :=
  match s.links.del (.req req) with
  | none => { s with crashed := true }
  | some links =>
      { s.goto c (.free req rv) with links, listed := s.listed.erase req }

/-- The card takes a command. -/
def answer (s : CoreCmdState C) (n : Nat) (cmdset : Nat → FrcoreCmdSet) :
    CoreCmdState C :=
  { s with
    answers := Function.update s.answers n
      (some (frcoreProcessFrcCmd cmdset (s.commands n))) }

/-- A response comes to the host; `visited` is what the loop over the list
ends with. -/
def deliver (s : CoreCmdState C) (respond : FrcCmdRespond)
    (visited : Option (List CoreReqNode)) : CoreCmdState C :=
  match visited with
  | none => { s with crashed := true }
  | some nodes =>
      { s with reqs := (frcdrvCoreReqRespond respond nodes s.reqs).2 }

end CoreCmdState

/-- One step of a call, of the card or of a message.  A response that has been
delivered may come again, and any message may get lost. -/
inductive CoreCmdStep : CoreCmdState C → CoreCmdState C → Prop
  | enter {s : CoreCmdState C} {c : C} (hpc : (s.calls c).pc = .entry) :
      CoreCmdStep s (s.setCall c (s.calls c).enter)
  | mallocReq {s : CoreCmdState C} {c : C} (got : Option Nat)
      (hpc : (s.calls c).pc = .mallocReq)
      (hfree : ∀ req, got = some req → ∀ d, (s.calls d).pc.req ≠ some req) :
      CoreCmdStep s (s.mallocReq c got)
  | mallocPkt {s : CoreCmdState C} {c : C} {req : Nat} (ok : Bool)
      (hpc : (s.calls c).pc = .mallocPkt req) :
      CoreCmdStep s (s.mallocPkt c req ok)
  | add {s : CoreCmdState C} {c : C} {req : Nat}
      (hpc : (s.calls c).pc = .add req) : CoreCmdStep s (s.add c req)
  | send {s : CoreCmdState C} {c : C} {req : Nat} (ok : Bool)
      (hpc : (s.calls c).pc = .send req) : CoreCmdStep s (s.send c req ok)
  | wait {s : CoreCmdState C} {c : C} {req i : Nat}
      (hpc : (s.calls c).pc = .wait req i) :
      CoreCmdStep s (s.setCall c ((s.calls c).wait req i (s.reqs req).state))
  | check {s : CoreCmdState C} {c : C} {req : Nat}
      (hpc : (s.calls c).pc = .check req) :
      CoreCmdStep s
        (s.setCall c ((s.calls c).check req (s.reqs req).respond))
  | take {s : CoreCmdState C} {c : C} {req : Nat}
      (hpc : (s.calls c).pc = .take req) :
      CoreCmdStep s (s.setCall c ((s.calls c).take req (s.reqs req).respond))
  | copy {s : CoreCmdState C} {c : C} {req : Nat} {rv : CoreCmdRv}
      (beyond : Nat → UInt8) (hpc : (s.calls c).pc = .copy req rv) :
      CoreCmdStep s
        (s.setCall c ((s.calls c).copy req rv (s.reqs req).respond beyond))
  | remove {s : CoreCmdState C} {c : C} {req : Nat} {rv : CoreCmdRv}
      (hpc : (s.calls c).pc = .remove req rv) :
      CoreCmdStep s (s.remove c req rv)
  | free {s : CoreCmdState C} {c : C} {req : Nat} {rv : CoreCmdRv}
      (hpc : (s.calls c).pc = .free req rv) : CoreCmdStep s (s.goto c (.ret rv))
  | answer {s : CoreCmdState C} {n : Nat} (cmdset : Nat → FrcoreCmdSet)
      (hwire : n ∈ s.wire) (hnew : s.answers n = none) :
      CoreCmdStep s (s.answer n cmdset)
  | deliver {s : CoreCmdState C} {n steps : Nat} {respond : FrcCmdRespond}
      {visited : Option (List CoreReqNode)} (hwire : n ∈ s.wire)
      (hanswer : s.answers n = some respond)
      (hwalk : s.links.walk .head steps .head = some visited) :
      CoreCmdStep s (s.deliver respond visited)
  | lose {s : CoreCmdState C} {wire : List Nat} (hsub : wire ⊆ s.wire) :
      CoreCmdStep s { s with wire }

/-- A request is outstanding while it is in the list, or a command or a response
of it is on the way. -/
def CoreCmdState.Outstanding (s : CoreCmdState C) (n : Nat) : Prop :=
  n ∈ s.wire ∨ ∃ c req, (s.calls c).added = some req ∧ (s.calls c).number = n

/-- Fewer than `2 ^ 32` requests are made while one is outstanding. -/
def CoreCmdState.Few (s : CoreCmdState C) : Prop :=
  ∀ n, s.Outstanding n → s.made < n + 2 ^ 32

/-- Before the first call. -/
def CoreCmdState.init (args : C → CoreCmdArgs)
    (links : CircList.Links CoreReqNode) (reqs : Nat → CoreReq) :
    CoreCmdState C where
  links := links.init .head
  reqs := reqs
  seq := 0
  calls := fun c => .init (args c)
  crashed := false
  wire := []
  commands := fun _ => ⟨0, 0, 0, 0⟩
  answers := fun _ => none
  listed := []
  made := 0
  pktFails := 0

/-- Every state that some order of steps leads to; nothing goes on after a
crash. -/
inductive CoreCmdReachable (start : CoreCmdState C) : CoreCmdState C → Prop
  | start : CoreCmdReachable start start
  | step {s s' : CoreCmdState C} (h : CoreCmdReachable start s)
      (hrun : s.crashed = false) (hstep : CoreCmdStep s s') (hfew : s'.Few) :
      CoreCmdReachable start s'

end Steps

end Barley
