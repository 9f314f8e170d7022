/-
The session table over whole runs of packets and timers: the chains stay in
shape, no connection has two sessions in a bucket, every running timer belongs
to a live session, and a session is purged with empty queues.
-/
import Barley.SsnProcess

namespace Barley

open Linked

namespace SsnTable

variable {bufs : Nat} {table table' : SsnTable} {chains : Nat → List SsnPtr}
  {p : SsnPtr} {i : Nat}

section Lookup

/-- `ssn_lookup_by_tuple` finds the first live session of the bucket that hits
the tuple. -/
theorem Sound.ssnLookupByTuple (h : table.Sound bufs chains) (i : Nat)
    (tuple : MppTuple) (mask : BitVec 64) :
    ssnLookupByTuple bufs table i tuple mask =
      some ((table.sessions bufs i).find? fun p =>
        (table.ssn p).key.hits tuple mask) := by
  have hsearch : search table.next
      (fun p => (table.ssn p).key.hits tuple mask) (bufs + 1)
      (table.ssn (.head i)).nextSc = some ((chains i).find? fun p =>
        (table.ssn p).key.hits tuple mask) :=
    search_eq_find (h.chain i) (Nat.lt_succ_of_le (h.length_le i))
  rw [Barley.ssnLookupByTuple, h.sessions_eq, List.find?_append]
  simp only [hsearch]
  cases hempty : (table.ssn (.head i)).empty with
  | true => simp
  | false =>
      cases hhits : (table.ssn (.head i)).key.hits tuple mask with
      | true => simp [hhits]
      | false => simp [hhits]

end Lookup

/-- The invariant of the table. -/
structure Valid (bufs : Nat) (table : SsnTable) : Prop where
  sound : ∃ chains, table.Sound bufs chains
  unique : ∀ i, (table.sessions bufs i).Pairwise fun p q =>
    ¬ (table.ssn p).key.five.Same (table.ssn q).key.five
  flowrec : ∀ i, ∀ p ∈ table.sessions bufs i,
    (table.ssn p).key.tcpflowrec = true
  timersNodup : table.timers.Nodup
  timersLive : ∀ p ∈ table.timers, ∃ i, p ∈ table.sessions bufs i
  released : ∀ p flows, SsnRelease.purged p flows ∈ table.released →
    flows.positiveData.head = [] ∧ flows.negativeData.head = []

section Quiet

/-- A write that changes neither the key nor the place of a session. -/
structure Quiet (node node' : SsnNode) : Prop where
  key : node'.key = node.key
  nextSc : node'.nextSc = node.nextSc
  empty : node'.empty = node.empty
  ssnIndex : node'.ssnIndex = node.ssnIndex

theorem Sound.set_quiet (h : table.Sound bufs chains) {node : SsnNode}
    (hquiet : Quiet (table.ssn p) node) :
    (table.set p node).Sound bufs chains := by
  refine h.set hquiet.nextSc ?_ ?_
  · intro i hi
    rw [hquiet.ssnIndex, h.index i p hi]
  · rintro i rfl hlive
    rw [hquiet.empty] at hlive
    rw [hquiet.ssnIndex, h.headIndex i hlive]

theorem Quiet.apply_update {node : SsnNode} (hquiet : Quiet (table.ssn p) node)
    (q : SsnPtr) : Quiet (table.ssn q) (Function.update table.ssn p node q) := by
  by_cases hq : q = p
  · rw [hq, Function.update_self]
    exact hquiet
  · rw [Function.update_of_ne hq]
    exact ⟨rfl, rfl, rfl, rfl⟩

theorem Sound.sessions_set_quiet (h : table.Sound bufs chains)
    {node : SsnNode} (hquiet : Quiet (table.ssn p) node) (i : Nat) :
    (table.set p node).sessions bufs i = table.sessions bufs i := by
  rw [(h.set_quiet hquiet).sessions_eq, h.sessions_eq, ssn_set,
    (hquiet.apply_update (.head i)).empty]

theorem Valid.set_quiet (h : table.Valid bufs) {node : SsnNode}
    (hquiet : Quiet (table.ssn p) node) : (table.set p node).Valid bufs := by
  obtain ⟨chains, hsound⟩ := h.sound
  have hsessions := hsound.sessions_set_quiet hquiet
  have hkey : ∀ q, ((table.set p node).ssn q).key = (table.ssn q).key :=
    fun q => (hquiet.apply_update q).key
  refine ⟨⟨chains, hsound.set_quiet hquiet⟩, ?_, ?_, h.timersNodup, ?_,
    h.released⟩
  · intro i
    rw [hsessions]
    simp only [hkey]
    exact h.unique i
  · intro i q hq
    rw [hsessions] at hq
    rw [hkey]
    exact h.flowrec i q hq
  · intro q hq
    obtain ⟨i, hi⟩ := h.timersLive q hq
    exact ⟨i, hsessions i ▸ hi⟩

end Quiet

section Ageing

theorem Valid.eraseTimer (h : table.Valid bufs) (p : SsnPtr) :
    ({ table with timers := table.timers.erase p } : SsnTable).Valid bufs := by
  obtain ⟨chains, hsound⟩ := h.sound
  refine ⟨⟨chains, hsound.of_eq rfl rfl⟩, h.unique, h.flowrec,
    h.timersNodup.erase p, ?_, h.released⟩
  intro q hq
  exact h.timersLive q (List.mem_of_mem_erase hq)

theorem Valid.addTimer (h : table.Valid bufs)
    (hlive : p ∈ table.sessions bufs i) (hnot : p ∉ table.timers) :
    (table.addTimer p).Valid bufs := by
  obtain ⟨chains, hsound⟩ := h.sound
  refine ⟨⟨chains, hsound.addTimer p⟩, h.unique, h.flowrec,
    List.nodup_cons.2 ⟨hnot, h.timersNodup⟩, ?_, h.released⟩
  intro q hq
  rcases List.mem_cons.1 hq with rfl | hq
  · exact ⟨i, hlive⟩
  · exact h.timersLive q hq

/-- Taking out a session whose timer does not run and whose queues are
empty. -/
theorem Valid.ssnPurgeSsn (h : table.Valid bufs)
    (hlive : p ∈ table.sessions bufs i) (hnot : p ∉ table.timers)
    (hpositive : (table.ssn p).flows.positiveData.head = [])
    (hnegative : (table.ssn p).flows.negativeData.head = [])
    (member : Bool) :
    ∃ table', ssnPurgeSsn bufs table p member = some table' ∧
      table'.Valid bufs := by
  obtain ⟨chains, hsound⟩ := h.sound
  obtain ⟨table', chains', hresult, hsound', hremoved, -, hreleased⟩ :=
    hsound.ssnPurgeSsn hlive member
  have hsublist : ∀ j, (table'.sessions bufs j).Sublist
      (table.sessions bufs j) := by
    intro j
    by_cases hj : j = i
    · rw [hj, hremoved.sessions]
      exact List.erase_sublist
    · rw [hremoved.others j hj]
  refine ⟨table', hresult, ⟨chains', hsound'⟩, ?_, ?_, ?_, ?_, ?_⟩
  · intro j
    simp only [hremoved.key]
    exact (h.unique j).sublist (hsublist j)
  · intro j q hq
    rw [hremoved.key]
    exact h.flowrec j q ((hsublist j).subset hq)
  · rw [hremoved.timers]
    exact h.timersNodup
  · intro q hq
    rw [hremoved.timers] at hq
    obtain ⟨j, hj⟩ := h.timersLive q hq
    have hne : q ≠ p := ne_of_mem_of_not_mem hq hnot
    refine ⟨j, ?_⟩
    by_cases hji : j = i
    · rw [hji, hremoved.sessions]
      exact (List.mem_erase_of_ne hne).2 (hji ▸ hj)
    · rwa [hremoved.others j hji]
  · intro q flows hq
    rw [hreleased] at hq
    rcases List.mem_append.1 hq with hold | hnew
    · exact h.released q flows hold
    · obtain ⟨-, rfl⟩ := SsnRelease.purged.inj (List.mem_singleton.1 hnew)
      exact ⟨hpositive, hnegative⟩

/-- A session expires with its queues flushed. -/
theorem Valid.expire (h : table.Valid bufs)
    (hlive : p ∈ table.sessions bufs i) (hnot : p ∉ table.timers)
    (member : Bool) :
    ∃ table', table.expire bufs p member = some table' ∧
      table'.Valid bufs := by
  obtain ⟨chains, hsound⟩ := h.sound
  have hquiet : Quiet (table.ssn p) { table.ssn p with
      flows := flushLock (table.ssn p).flows } := ⟨rfl, rfl, rfl, rfl⟩
  have hvalid := h.set_quiet hquiet
  have hsessions := hsound.sessions_set_quiet hquiet i
  have hflows : ((table.set p { table.ssn p with
      flows := flushLock (table.ssn p).flows }).ssn p).flows =
      flushLock (table.ssn p).flows := by
    rw [ssn_set, Function.update_self]
  rw [SsnTable.expire]
  simp only [h.flowrec i p hlive, if_true]
  refine hvalid.ssnPurgeSsn (hsessions ▸ hlive) hnot ?_ ?_ member
  · rw [hflows]
    rfl
  · rw [hflows]
    rfl

/-- A timer that fires. -/
theorem Valid.frcoreSsnAgeProcess (h : table.Valid bufs)
    (hlive : p ∈ table.sessions bufs i) (hnot : p ∉ table.timers)
    (env : AgeEnv) :
    ∃ table', frcoreSsnAgeProcess bufs table p env = some table' ∧
      table'.Valid bufs := by
  obtain ⟨chains, hsound⟩ := h.sound
  have hquiet : Quiet (table.ssn p) { table.ssn p with
      ttl := (table.ssn p).ttl - 1 } := ⟨rfl, rfl, rfl, rfl⟩
  have hvalid := h.set_quiet hquiet
  have hlive' := hsound.sessions_set_quiet hquiet i ▸ hlive
  rw [Barley.frcoreSsnAgeProcess]
  split
  · exact hvalid.expire hlive' hnot env.member
  · split
    · exact ⟨_, rfl, hvalid.addTimer hlive' hnot⟩
    · exact hvalid.expire hlive' hnot env.member

end Ageing

section Packets

variable {args : PrepareArgs}

theorem executePacket_quiet (disorderDepth : Nat) (node : SsnNode)
    (pkt : IpTcpPacket) : Quiet node (node.executePacket disorderDepth pkt) := by
  rw [SsnNode.executePacket]
  split
  · simp only
    split
    · split
      · exact ⟨rfl, rfl, rfl, rfl⟩
      · exact ⟨rfl, rfl, rfl, rfl⟩
    · exact ⟨rfl, rfl, rfl, rfl⟩
  · exact ⟨rfl, rfl, rfl, rfl⟩

theorem Valid.execute (h : table.Valid bufs) (disorderDepth : Nat)
    (p : SsnPtr) (work : TcpWork) :
    (table.execute disorderDepth p work).Valid bufs :=
  h.set_quiet (executePacket_quiet disorderDepth _ _)

theorem start_quiet {node : SsnNode}
    (hkey : node.key = .prepared args.data0 args.data1 args.mask) :
    Quiet node node.start := by
  refine ⟨?_, rfl, rfl, rfl⟩
  show node.key.setActionTcpflowrec = node.key
  rw [hkey]
  exact MppSsnKey.setActionTcpflowrec_idem _

theorem Valid.refused (h : table.Valid bufs)
    (hsound : ∃ chains, table'.Sound bufs chains)
    (hrefused : Refused bufs table table') : table'.Valid bufs := by
  refine ⟨hsound, ?_, ?_, ?_, ?_, ?_⟩
  · intro j
    rw [hrefused.sessions]
    refine (h.unique j).imp_of_mem ?_
    intro q q' hq hq' hdiffer
    rwa [hrefused.key j q hq, hrefused.key j q' hq']
  · intro j q hq
    rw [hrefused.sessions] at hq
    rw [hrefused.key j q hq]
    exact h.flowrec j q hq
  · rw [hrefused.timers]
    exact h.timersNodup
  · intro q hq
    rw [hrefused.timers] at hq
    obtain ⟨j, hj⟩ := h.timersLive q hq
    exact ⟨j, (hrefused.sessions j).symm ▸ hj⟩
  · intro q flows hq
    exact h.released q flows (hrefused.released q flows hq)

theorem Created.mem_sessions (hcreated : Created bufs table table' p i args)
    {q : SsnPtr} {j : Nat} : q ∈ table'.sessions bufs j ↔
      (q = p ∧ j = i) ∨ q ∈ table.sessions bufs j := by
  by_cases hj : j = i
  · rw [hj, hcreated.sessions.mem_iff, List.mem_cons]
    simp only [and_true]
  · rw [hcreated.others j hj]
    simp only [hj, and_false, false_or]

theorem Created.key_eq (hcreated : Created bufs table table' p i args)
    {q : SsnPtr} {j : Nat} (hq : q ∈ table.sessions bufs j) :
    (table'.ssn q).key = (table.ssn q).key := by
  refine hcreated.keys q ?_
  rintro rfl
  exact hcreated.fresh j hq

/-- A new session keeps the bucket free of doubles if no session of it is of
the same connection. -/
theorem Valid.created (h : table.Valid bufs)
    (hsound : ∃ chains, table'.Sound bufs chains)
    (hcreated : Created bufs table table' p i args)
    (hflowrec : (MppSsnKey.prepared args.data0 args.data1
      args.mask).tcpflowrec = true)
    (hnew : ∀ q ∈ table.sessions bufs i,
      ¬ (MppSsnKey.prepared args.data0 args.data1 args.mask).five.Same
        (table.ssn q).key.five) : table'.Valid bufs := by
  have hold : ∀ j, (table.sessions bufs j).Pairwise fun q q' =>
      ¬ (table'.ssn q).key.five.Same (table'.ssn q').key.five := by
    intro j
    refine (h.unique j).imp_of_mem ?_
    intro q q' hq hq' hdiffer
    rwa [hcreated.key_eq hq, hcreated.key_eq hq']
  refine ⟨hsound, ?_, ?_, ?_, ?_, ?_⟩
  · intro j
    by_cases hj : j = i
    · rw [hj, hcreated.sessions.pairwise_iff fun hdiffer hsame =>
        hdiffer hsame.symm]
      refine List.pairwise_cons.2 ⟨?_, hold i⟩
      intro q hq
      rw [hcreated.key, hcreated.key_eq hq]
      exact hnew q hq
    · rw [hcreated.others j hj]
      exact hold j
  · intro j q hq
    rcases hcreated.mem_sessions.1 hq with ⟨rfl, -⟩ | hq
    · rw [hcreated.key]
      exact hflowrec
    · rw [hcreated.key_eq hq]
      exact h.flowrec j q hq
  · rw [hcreated.timers]
    refine List.nodup_cons.2 ⟨?_, h.timersNodup⟩
    intro hmem
    obtain ⟨j, hj⟩ := h.timersLive p hmem
    exact hcreated.fresh j hj
  · intro q hq
    rw [hcreated.timers] at hq
    rcases List.mem_cons.1 hq with rfl | hq
    · exact ⟨i, hcreated.mem_sessions.2 (Or.inl ⟨rfl, rfl⟩)⟩
    · obtain ⟨j, hj⟩ := h.timersLive q hq
      exact ⟨j, hcreated.mem_sessions.2 (Or.inr hj)⟩
  · intro q flows hq
    rw [hcreated.released] at hq
    exact h.released q flows hq

end Packets

end SsnTable
end Barley
