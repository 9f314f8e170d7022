/-
The session table.  Every bucket has a head of its own in `gsdata.ssn`; further
sessions of a bucket are buffers of the session pool, linked behind the head.
A session leaves the table when its timer finds it idle.
-/
import Mathlib.Algebra.BigOperators.Group.Finset.Basic
import Barley.Linked
import Barley.SsnTuple
import Barley.TcpOwnership

namespace Barley

open Linked

/-- A pointer to a session: a bucket head or a buffer of the pool. -/
inductive SsnPtr where
  | head (index : Nat)
  | buffer (number : Nat)
deriving DecidableEq, Repr

/-- `SSN_HASH_BUCKET_SIZE`. -/
def ssnHashBucketSize : Nat := 2 ^ 18

/-- `SSN_TOTAL_NUM`. -/
def ssnTotalNum : Int := 300000

/-- `SSN_INDEX_INVALID`. -/
def ssnIndexInvalid : Nat := 0xffffffff

/-- `struct mpp_ssn`, as far as the table uses it.  `empty` and `good` are the
bits `SSN_STATUS_EMPTY` and `SSN_STATUS_GOOD` of `ssn_status`. -/
structure SsnNode where
  key : MppSsnKey
  nextSc : Option SsnPtr
  empty : Bool
  good : Bool
  ssnIndex : Nat
  ttl : Int
  age : Nat
  flows : MppSsn

/-- A session that is taken out of the table, with its flows at that time:
`purged` by `ssn_purge_ssn`, or `undone` by `ssn_prepare` itself. -/
inductive SsnRelease where
  | purged (p : SsnPtr) (flows : MppSsn)
  | undone (p : SsnPtr) (flows : MppSsn)

/-- The memory of the sessions, the free buffers of the pool, the sessions
whose timer is running, and `stat_ssn_active_num`; `released` is the history
of the sessions taken out. -/
structure SsnTable where
  ssn : SsnPtr → SsnNode
  pool : List SsnPtr
  timers : List SsnPtr
  activeNum : Int
  released : List SsnRelease

namespace SsnTable

def next (table : SsnTable) (p : SsnPtr) : Option SsnPtr :=
  (table.ssn p).nextSc

def set (table : SsnTable) (p : SsnPtr) (node : SsnNode) : SsnTable :=
  { table with ssn := Function.update table.ssn p node }

def takeBuffer (table : SsnTable) (p : SsnPtr) : SsnTable :=
  { table with pool := table.pool.erase p }

/-- `cvmx_fpa_alloc`: the pool hands out one of its free buffers, or none. -/
def fpaAlloc (table : SsnTable) (alloc : Option SsnPtr) :
    Option SsnPtr × SsnTable :=
  match alloc with
  | none => (none, table)
  | some p =>
      if p ∈ table.pool then (some p, table.takeBuffer p) else (none, table)

/-- `cvmx_fpa_free`. -/
def fpaFree (table : SsnTable) (p : SsnPtr) : SsnTable :=
  { table with pool := p :: table.pool }

def release (table : SsnTable) (entry : SsnRelease) : SsnTable :=
  { table with released := table.released ++ [entry] }

/-- A successful `ssn_add_timer`. -/
def addTimer (table : SsnTable) (p : SsnPtr) : SsnTable :=
  { table with timers := p :: table.timers }

def addActive (table : SsnTable) (value : Int) : SsnTable :=
  { table with activeNum := table.activeNum + value }

end SsnTable

/-- How the calls end that `ssn_prepare` makes: the buffer it gets, whether
`cvmx_fpa_is_member` accepts it, and whether the timer is added. -/
structure PrepareEnv where
  alloc : Option SsnPtr
  member : Bool
  timerOk : Bool

/-- The arguments of `ssn_prepare`, and `frcore_ssn_age - 1`. -/
structure PrepareArgs where
  data0 : BitVec 64
  data1 : BitVec 64
  mask : BitVec 64
  thFlags : Nat
  seq : Nat
  ackSeq : Nat
  age : Nat

/-- The fields that `ssn_prepare` sets. -/
def SsnNode.prepare (node : SsnNode) (index : Nat) (args : PrepareArgs) :
    SsnNode :=
  { node with
    key := .prepared args.data0 args.data1 args.mask
    ssnIndex := index
    ttl := args.age
    age := args.age
    flows := { node.flows with seq := args.seq, ackSeq := args.ackSeq } }

/-- The fields that `frcore_tcp_process` sets in a new session; `ssn_add` marks
it good. -/
def SsnNode.start (node : SsnNode) : SsnNode :=
  { node with
    key := node.key.setActionTcpflowrec
    good := true
    flows := { node.flows with
      positiveData := .fresh
      negativeData := .fresh } }

section Loops

-- The number of buffers of the pool: it bounds the loops over a bucket.
variable (bufs : Nat)

/-- `ssn_lookup_by_tuple`. -/
def ssnLookupByTuple (table : SsnTable) (index : Nat) (tuple : MppTuple)
    (mask : BitVec 64) : Option (Option SsnPtr) :=
  let ssn := table.ssn (.head index)
  if ¬ ssn.empty ∧ ssn.key.hits tuple mask then some (some (.head index))
  else
    search table.next (fun p => (table.ssn p).key.hits tuple mask) (bufs + 1)
      ssn.nextSc

/-- The loop of both purges: the node before `p` is searched from the head of
the bucket on and gets the link of `p`. -/
def SsnTable.unlink (table : SsnTable) (p : SsnPtr) : Option SsnTable :=
  let ssn1 := SsnPtr.head (table.ssn p).ssnIndex
  match search table.next (fun q => table.next q = some p) (bufs + 2)
      (some ssn1) with
  | none => none
  | some none => some table
  | some (some previous) =>
      some (table.set previous
        { table.ssn previous with nextSc := table.next p })

/-- `ssn_purge_ssn_nolock`. -/
def ssnPurgeSsnNolock (table : SsnTable) (p : SsnPtr) : Option SsnTable :=
  let ssn := table.ssn p
  let table := table.release (.undone p ssn.flows)
  if p = .head ssn.ssnIndex then some (table.set p { ssn with empty := true })
  else
    match table.unlink bufs p with
    | none => none
    | some table => some (table.fpaFree p)

/-- `ssn_purge_ssn`; `member` is the answer of `cvmx_fpa_is_member`. -/
def ssnPurgeSsn (table : SsnTable) (p : SsnPtr) (member : Bool) :
    Option SsnTable :=
  let ssn := table.ssn p
  let table := table.release (.purged p ssn.flows)
  if p = .head ssn.ssnIndex then
    some ((table.set p { ssn with empty := true, good := false }).addActive
      (-1))
  else
    match table.unlink bufs p with
    | none => none
    | some table =>
        if member then some ((table.fpaFree p).addActive (-1)) else some table

/-- The choice of the node in `ssn_prepare`: the head of the bucket if it is
empty, else a buffer that is linked behind the head. -/
def SsnTable.takeNode (table : SsnTable) (index : Nat) (env : PrepareEnv) :
    Option SsnPtr × SsnTable :=
  let ssn := table.ssn (.head index)
  if ssn.empty then
    (some (.head index), table.set (.head index) { ssn with empty := false })
  else
    match table.fpaAlloc env.alloc with
    | (none, table) => (none, table.addActive (-1))
    | (some p, table) =>
        if env.member then
          let table := table.set p { table.ssn p with
            empty := true, good := false, nextSc := ssn.nextSc }
          (some p, table.set (.head index) { ssn with nextSc := some p })
        else (none, table)

/-- `ssn_prepare`: the new session, unless it is refused. -/
def SsnTable.ssnPrepare (table : SsnTable) (index : Nat) (args : PrepareArgs)
    (env : PrepareEnv) : Option (Option SsnPtr × SsnTable) :=
  if args.thFlags &&& (thFin ||| thRst) ≠ 0 then some (none, table)
  else if ssnTotalNum ≤ table.activeNum then some (none, table)
  else
    match (table.addActive 1).takeNode index env with
    | (none, table) => some (none, table)
    | (some p, table) =>
        let table := table.set p ((table.ssn p).prepare index args)
        if env.timerOk then some (some p, table.addTimer p)
        else
          match ssnPurgeSsnNolock bufs table p with
          | none => none
          | some table => some (none, table)

/-- The sessions that are linked behind the head of a bucket. -/
def SsnTable.chain (table : SsnTable) (index : Nat) : List SsnPtr :=
  follow table.next bufs (table.next (.head index))

/-- The live sessions of a bucket: the head unless it is empty, and all that
are linked behind it. -/
def SsnTable.sessions (table : SsnTable) (index : Nat) : List SsnPtr :=
  (if (table.ssn (.head index)).empty then [] else [.head index]) ++
    table.chain bufs index

/-- The number of live sessions of the table. -/
def SsnTable.liveNum (table : SsnTable) : Nat :=
  ∑ index ∈ Finset.range ssnHashBucketSize, (table.sessions bufs index).length

end Loops

/-- `mc_init_data`: the heads are empty, and the pool has all its buffers.
`memory` is what the memory of the sessions held before. -/
def SsnTable.init (bufs : Nat) (memory : SsnPtr → SsnNode) : SsnTable where
  ssn
    | .head index => { memory (.head index) with
        nextSc := none
        empty := true
        good := false
        ssnIndex := ssnIndexInvalid
        flows := { (memory (.head index)).flows with
          positiveData := ⟨0, [], 0, false⟩
          negativeData := ⟨0, [], 0, false⟩ } }
    | .buffer number => memory (.buffer number)
  pool := (List.range bufs).map .buffer
  timers := []
  activeNum := 0
  released := []

end Barley
