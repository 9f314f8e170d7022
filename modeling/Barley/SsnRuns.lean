/-
Runs of the session table from its initial state: what packets and timers, in
any order and with any failures, leave of the buckets, and that the two
directions of a connection meet in one session.
-/
import Barley.SsnProcessLaw

namespace Barley

open Linked

section Steps

variable {bufs : Nat} {hash : MppTuple → Nat} {disorderDepth age : Nat}
  {table : SsnTable}

/-- A tuple is looked up among the live sessions of its bucket. -/
theorem SsnTable.Sound.lookup {chains : Nat → List SsnPtr}
    (h : table.Sound bufs chains) (hash : MppTuple → Nat)
    (tuple : MppTuple) :
    table.lookup bufs hash tuple =
      some ((table.sessions bufs (tuple.bucket hash)).find? fun p =>
        (table.ssn p).key.hits (ssnSortTuple tuple) mppSsnHashMaskSniffer) :=
  h.ssnLookupByTuple _ _ _

theorem hits_sort_iff (key : MppSsnKey) (tuple : MppTuple) :
    key.hits (ssnSortTuple tuple) mppSsnHashMaskSniffer ↔
      key.five.Same tuple.five := by
  rw [MppSsnKey.hits_iff]
  constructor
  · intro h
    exact h.trans (ssnSortTuple_same tuple)
  · intro h
    exact h.trans (ssnSortTuple_same tuple).symm

/-- `frcore_tcp_process` always returns, and keeps the table valid. -/
theorem SsnTable.Valid.frcoreTcpProcess (h : table.Valid bufs)
    (hash : MppTuple → Nat) (disorderDepth age : Nat) (work : TcpWork)
    (env : PrepareEnv) :
    ∃ act table', frcoreTcpProcess bufs hash disorderDepth age table work env =
      some (act, table') ∧ table'.Valid bufs := by
  obtain ⟨chains, hsound⟩ := h.sound
  rw [Barley.frcoreTcpProcess]
  split
  · exact ⟨_, _, rfl, h⟩
  · split
    · exact ⟨_, _, rfl, h⟩
    · rw [hsound.lookup]
      cases hfind : (table.sessions bufs (work.tuple.bucket hash)).find?
          (fun p => (table.ssn p).key.hits (ssnSortTuple work.tuple)
            mppSsnHashMaskSniffer) with
      | some p => exact ⟨_, _, rfl, h.execute disorderDepth p work⟩
      | none =>
          obtain ⟨result, table', chains', hresult, hsound', hends⟩ :=
            hsound.ssnPrepare (work.tuple.bucket hash) (work.prepareArgs age)
              env
          simp only [hresult]
          rcases hends with ⟨rfl, hrefused, -⟩ | ⟨p, rfl, hcreated, -, -⟩
          · exact ⟨_, _, rfl, h.refused ⟨chains', hsound'⟩ hrefused⟩
          · have hnew : ∀ q ∈ table.sessions bufs (work.tuple.bucket hash),
                ¬ (MppSsnKey.prepared work.tuple.data0 work.tuple.data1
                  mppSsnHashMaskData64).five.Same (table.ssn q).key.five := by
              intro q hq hsame
              rw [MppSsnKey.prepared_five] at hsame
              have hmiss := List.find?_eq_none.1 hfind q hq
              exact hmiss ((hits_sort_iff _ _).2 hsame.symm)
            have hvalid := h.created ⟨chains', hsound'⟩ hcreated
              (MppSsnKey.prepared_tcpflowrec work.tuple) hnew
            exact ⟨_, _, rfl, (hvalid.set_quiet
              (SsnTable.start_quiet hcreated.key)).execute disorderDepth p work⟩

theorem SsnTable.Valid.step (h : table.Valid bufs) (hash : MppTuple → Nat)
    (disorderDepth age : Nat) (event : SsnEvent) :
    ∃ table', table.step bufs hash disorderDepth age event = some table' ∧
      table'.Valid bufs := by
  cases event with
  | packet work env =>
      obtain ⟨act, table', hresult, hvalid⟩ :=
        h.frcoreTcpProcess hash disorderDepth age work env
      refine ⟨table', ?_, hvalid⟩
      rw [SsnTable.step, hresult, Option.map_some]
  | timer p env =>
      rw [SsnTable.step]
      by_cases hp : p ∈ table.timers
      · rw [if_pos hp]
        obtain ⟨i, hlive⟩ := h.timersLive p hp
        exact (h.eraseTimer p).frcoreSsnAgeProcess (i := i) hlive
          h.timersNodup.not_mem_erase env
      · rw [if_neg hp]
        exact ⟨table, rfl, h⟩

theorem SsnTable.Valid.run (h : table.Valid bufs) (hash : MppTuple → Nat)
    (disorderDepth age : Nat) (events : List SsnEvent) :
    ∃ table', SsnTable.run bufs hash disorderDepth age events table =
      some table' ∧ table'.Valid bufs := by
  induction events generalizing table with
  | nil => exact ⟨table, rfl, h⟩
  | cons event rest ih =>
      obtain ⟨next, hstep, hvalid⟩ := h.step hash disorderDepth age event
      obtain ⟨table', hrun, hvalid'⟩ := ih hvalid
      refine ⟨table', ?_, hvalid'⟩
      rw [SsnTable.run, hstep, Option.bind_some, hrun]

theorem SsnTable.init_valid (bufs : Nat) (memory : SsnPtr → SsnNode) :
    (SsnTable.init bufs memory).Valid bufs := by
  have hsound := SsnTable.init_sound bufs memory
  have hnone : ∀ i, (SsnTable.init bufs memory).sessions bufs i = [] := by
    intro i
    rw [hsound.sessions_eq]
    rfl
  refine ⟨⟨_, hsound⟩, ?_, ?_, List.nodup_nil, ?_, ?_⟩
  · intro i
    rw [hnone]
    exact List.Pairwise.nil
  · intro i p hp
    rw [hnone] at hp
    nomatch hp
  · intro p hp
    nomatch hp
  · intro p flows hp
    nomatch hp

end Steps

section Table

/-- What holds of the table in every state: the links of a bucket visit every
node once, a live session knows its bucket, no two live sessions of a bucket
are of one connection, `ssn_purge_ssn` takes out exactly the session it is
given, and so far it has taken out sessions with empty queues only. -/
structure SsnTable.Law (bufs : Nat) (table : SsnTable) : Prop where
  chain : ∀ i, Chain table.next (some (.head i))
    (.head i :: table.chain bufs i)
  acyclic : ∀ i, (SsnPtr.head i :: table.chain bufs i).Nodup
  ssnIndex : ∀ i, ∀ p ∈ table.sessions bufs i, (table.ssn p).ssnIndex = i
  unique : ∀ i, (table.sessions bufs i).Pairwise fun p q =>
    ¬ (table.ssn p).key.five.Same (table.ssn q).key.five
  purge : ∀ i, ∀ p ∈ table.sessions bufs i, ∀ member, ∃ table',
    ssnPurgeSsn bufs table p member = some table' ∧
      SsnTable.Removed bufs table table' p i
  released : ∀ p flows, SsnRelease.purged p flows ∈ table.released →
    flows.positiveData.head = [] ∧ flows.negativeData.head = []

theorem SsnTable.Valid.law {bufs : Nat} {table : SsnTable}
    (h : table.Valid bufs) : table.Law bufs := by
  obtain ⟨chains, hsound⟩ := h.sound
  have hchain : ∀ i, Chain table.next (some (.head i))
      (.head i :: table.chain bufs i) := by
    intro i
    rw [hsound.chain_eq]
    exact hsound.bucket i
  refine ⟨hchain, fun i => (hchain i).nodup, ?_, h.unique, ?_, h.released⟩
  · intro i p hp
    exact hsound.ssnIndex_eq hp
  · intro i p hp member
    obtain ⟨table', -, hresult, -, hremoved, -⟩ :=
      hsound.ssnPurgeSsn hp member
    exact ⟨table', hresult, hremoved⟩

/-- For every sequence of packets and timers, with every outcome of the pool,
of the membership check and of the timers, the table is left in shape. -/
theorem ssnRun_law (bufs : Nat) (hash : MppTuple → Nat)
    (disorderDepth age : Nat) (memory : SsnPtr → SsnNode)
    (events : List SsnEvent) :
    ∃ table, SsnTable.run bufs hash disorderDepth age events
      (.init bufs memory) = some table ∧ table.Law bufs := by
  obtain ⟨table, hrun, hvalid⟩ := (SsnTable.init_valid bufs memory).run hash
    disorderDepth age events
  exact ⟨table, hrun, hvalid.law⟩

/-- Memory in which the first word of a queue is left over. -/
def staleMemory : SsnPtr → SsnNode := fun p =>
  { zeroMemory p with
    flows := ⟨0, 0, ⟨0, [⟨0, 0, 0, fun _ => 0, 0, .positive⟩], 0, false⟩,
      ⟨0, [], 0, false⟩⟩ }

/-- A first packet from the given port. -/
def synFrom (sp : BitVec 16) : TcpWork where
  sip := 0x0a000001
  dip := 0x0a000002
  sp := sp
  dp := 80
  pkt :=
    { protocol := 0x06
      totLen := 40
      ihl := 5
      doff := 5
      seq := 1
      ackSeq := 0
      thFlags := thSyn
      data := fun _ => 0
      direction := .positive
      allocOk := true }

/-- Two connections of one bucket; the timer of the second cannot be added. -/
def secondTimerFails : List SsnEvent :=
  [.packet (synFrom 1024) ⟨none, true, true⟩,
    .packet (synFrom 1025) ⟨some (.buffer 0), true, false⟩]

/-- A bucket head that never held a session has no index yet, and a session
that `ssn_prepare` gives back itself has whatever its buffer held as queues. -/
theorem ssnTable_not_uniform :
    (∃ table, SsnTable.run 1 (fun _ => 0) 128 2 [] (.init 1 staleMemory) =
      some table ∧
      SsnPtr.head 0 ∈ SsnPtr.head 0 :: table.chain 1 0 ∧
      (table.ssn (.head 0)).ssnIndex ≠ 0) ∧
    (∃ table, SsnTable.run 1 (fun _ => 0) 128 2 secondTimerFails
      (.init 1 staleMemory) = some table ∧
      ∃ entry ∈ table.released, ∃ p flows, entry = .undone p flows ∧
        flows.positiveData.head ≠ []) := by
  refine ⟨⟨_, rfl, List.mem_cons_self, by decide⟩, ?_⟩
  refine ⟨_, rfl, _, List.mem_cons_self, _, _, rfl, ?_⟩
  exact List.cons_ne_nil _ _

end Table

section Connections

/-- Both directions of a connection reach one session: they are sorted alike
and so have one bucket, and in every state of the table they are looked up
with one result, in which they are opposite directions unless they are the
same. -/
structure BothReachOne (tuple : MppTuple) : Prop where
  sorted : ssnSortTuple tuple = ssnSortTuple tuple.reverse
  bucket : ∀ hash, tuple.bucket hash = tuple.reverse.bucket hash
  lookup : ∀ (bufs : Nat) (hash : MppTuple → Nat) (disorderDepth age : Nat)
    (memory : SsnPtr → SsnNode) (events : List SsnEvent),
    ∃ table found, SsnTable.run bufs hash disorderDepth age events
      (.init bufs memory) = some table ∧
      table.lookup bufs hash tuple = some found ∧
      table.lookup bufs hash tuple.reverse = some found ∧
      ∀ p ∈ found, tuple.reverse ≠ tuple →
        ssnDirectionTuple tuple (table.ssn p).key.tuplePositive ≠
          ssnDirectionTuple tuple.reverse (table.ssn p).key.tuplePositive

theorem bothReachOne_of_sorted {tuple : MppTuple}
    (hsorted : ssnSortTuple tuple = ssnSortTuple tuple.reverse) :
    BothReachOne tuple := by
  have hbucket : ∀ hash, tuple.bucket hash = tuple.reverse.bucket hash := by
    intro hash
    rw [MppTuple.bucket, MppTuple.bucket, hsorted]
  refine ⟨hsorted, hbucket, ?_⟩
  intro bufs hash disorderDepth age memory events
  obtain ⟨table, hrun, hvalid⟩ := (SsnTable.init_valid bufs memory).run hash
    disorderDepth age events
  obtain ⟨chains, hsound⟩ := hvalid.sound
  refine ⟨table, _, hrun, hsound.lookup hash tuple, ?_, ?_⟩
  · rw [hsound.lookup, hbucket, hsorted]
  · intro p hp hne
    have hhits := List.find?_some hp
    exact ssnDirectionTuple_reverse_ne tuple _
      ((hits_sort_iff _ tuple).1 hhits) hne

/-- The two directions of a connection reach one session exactly when they are
not between two ports of one address. -/
theorem bothReachOne_iff (tuple : MppTuple) :
    BothReachOne tuple ↔ tuple.sip ≠ tuple.dip ∨ tuple.sp = tuple.dp := by
  rw [← ssnSortTuple_reverse_iff]
  constructor
  · intro h
    exact h.sorted
  · intro hsorted
    exact bothReachOne_of_sorted hsorted

/-- A connection of a host with itself. -/
def loopTuple : MppTuple where
  sip := 0x0a000001
  dip := 0x0a000001
  sp := 1024
  dp := 80
  proto := 6
  sessionType := 0
  ipif := 0
  rsv := 0

theorem loopTuple_not_bothReachOne : ¬ BothReachOne loopTuple := by
  intro h
  have hsorted : ssnSortTuple loopTuple ≠ ssnSortTuple loopTuple.reverse := by
    decide
  exact hsorted h.sorted

end Connections

end Barley
