/-
What `ssn_purge_ssn` and `ssn_prepare` do to the live sessions of a table in
good shape.
-/
import Barley.SsnTableLaw

namespace Barley

open Linked

namespace SsnTable

variable {bufs : Nat} {table table' : SsnTable} {chains : Nat → List SsnPtr}
  {p : SsnPtr} {i : Nat}

theorem Sound.sessions_eq (h : table.Sound bufs chains) (i : Nat) :
    table.sessions bufs i =
      (if (table.ssn (.head i)).empty then [] else [.head i]) ++ chains i := by
  rw [sessions, h.chain_eq]

/-- A live session is its bucket's head or linked behind it. -/
theorem Sound.mem_sessions (h : table.Sound bufs chains) :
    p ∈ table.sessions bufs i ↔
      (p = .head i ∧ (table.ssn (.head i)).empty = false) ∨ p ∈ chains i := by
  rw [h.sessions_eq, List.mem_append]
  cases (table.ssn (.head i)).empty with
  | true => simp
  | false => simp

theorem Sound.ssnIndex_eq (h : table.Sound bufs chains)
    (hp : p ∈ table.sessions bufs i) : (table.ssn p).ssnIndex = i := by
  rcases h.mem_sessions.1 hp with ⟨rfl, hlive⟩ | hlinked
  · exact h.headIndex i hlive
  · exact h.index i p hlinked

/-- What taking a session out means: it is no longer live, all others are, and
no node gets other contents. -/
structure Removed (bufs : Nat) (table table' : SsnTable) (p : SsnPtr)
    (i : Nat) : Prop where
  sessions : table'.sessions bufs i = (table.sessions bufs i).erase p
  others : ∀ j ≠ i, table'.sessions bufs j = table.sessions bufs j
  key : ∀ q, (table'.ssn q).key = (table.ssn q).key
  timers : table'.timers = table.timers

section Purge

/-- The removal of a linked session from the chains. -/
theorem Sound.removed_of_unlinked (h : table.Sound bufs chains)
    (hp : p ∈ chains i) (hrelinked : ∀ q, ∃ link,
      table'.ssn q = { table.ssn q with nextSc := link })
    (htimers : table'.timers = table.timers)
    (h' : table'.Sound bufs
      (Function.update chains i ((chains i).erase p))) :
    Removed bufs table table' p i := by
  have hempty : ∀ q, (table'.ssn q).empty = (table.ssn q).empty := by
    intro q
    obtain ⟨link, hlink⟩ := hrelinked q
    rw [hlink]
  refine ⟨?_, ?_, ?_, htimers⟩
  · have hhead : p ∉ (if (table.ssn (.head i)).empty then []
        else [SsnPtr.head i]) := by
      split
      · exact List.not_mem_nil
      · rw [List.mem_singleton]
        rintro rfl
        exact h.head_notMem i i hp
    rw [h'.sessions_eq, h.sessions_eq, hempty, Function.update_self,
      List.erase_append_right _ hhead]
  · intro j hj
    rw [h'.sessions_eq, h.sessions_eq, hempty, Function.update_of_ne hj]
  · intro q
    obtain ⟨link, hlink⟩ := hrelinked q
    rw [hlink]

/-- Marking a head as empty. -/
theorem Sound.set_head (h : table.Sound bufs chains) {node : SsnNode}
    (hnext : node.nextSc = table.next (.head i)) (hempty : node.empty = true) :
    (table.set (.head i) node).Sound bufs chains := by
  refine h.set hnext ?_ ?_
  · intro j hj
    exact absurd hj (h.head_notMem i j)
  · intro j hj hfalse
    rw [hempty] at hfalse
    nomatch hfalse

theorem Sound.removed_head (h : table.Sound bufs chains)
    (h' : table'.Sound bufs chains)
    (hlive : (table.ssn (.head i)).empty = false) {node : SsnNode}
    (hssn : table'.ssn = Function.update table.ssn (.head i) node)
    (hempty : node.empty = true) (hkey : node.key = (table.ssn (.head i)).key)
    (htimers : table'.timers = table.timers) :
    Removed bufs table table' (.head i) i := by
  refine ⟨?_, ?_, ?_, htimers⟩
  · rw [h'.sessions_eq, h.sessions_eq, hssn, Function.update_self, hempty,
      hlive]
    exact (List.erase_cons_head ..).symm
  · intro j hj
    rw [h'.sessions_eq, h.sessions_eq, hssn,
      Function.update_of_ne fun heq => hj (SsnPtr.head.inj heq)]
  · intro q
    by_cases hq : q = .head i
    · rw [hssn, hq, Function.update_self, hkey]
    · rw [hssn, Function.update_of_ne hq]

theorem ssnPurgeSsn_head (hindex : (table.ssn (.head i)).ssnIndex = i)
    (member : Bool) :
    ssnPurgeSsn bufs table (.head i) member =
      some (((table.release (.purged (.head i) (table.ssn (.head i)).flows)).set
        (.head i) { table.ssn (.head i) with
          empty := true, good := false }).addActive (-1)) := by
  rw [ssnPurgeSsn]
  exact if_pos (congrArg SsnPtr.head hindex.symm)

theorem ssnPurgeSsn_linked (hindex : (table.ssn p).ssnIndex = i)
    (hne : p ≠ .head i)
    (hunlink : (table.release (.purged p (table.ssn p).flows)).unlink bufs p =
      some table') (member : Bool) :
    ssnPurgeSsn bufs table p member =
      some (if member then (table'.fpaFree p).addActive (-1) else table') := by
  rw [ssnPurgeSsn]
  simp only [hindex, if_neg hne, hunlink]
  split <;> rfl

/-- `ssn_purge_ssn` on a live session: it takes it out, and counts it unless
the membership check fails for a linked one. -/
theorem Sound.ssnPurgeSsn (h : table.Sound bufs chains)
    (hp : p ∈ table.sessions bufs i) (member : Bool) :
    ∃ table' chains', ssnPurgeSsn bufs table p member = some table' ∧
      table'.Sound bufs chains' ∧ Removed bufs table table' p i ∧
      table'.activeNum =
        table.activeNum - (if p = .head i ∨ member then 1 else 0) ∧
      table'.released =
        table.released ++ [.purged p (table.ssn p).flows] := by
  have hindex := h.ssnIndex_eq hp
  have hrelease := h.release (.purged p (table.ssn p).flows)
  rcases h.mem_sessions.1 hp with ⟨rfl, hlive⟩ | hlinked
  · have hset : ((table.release (.purged (.head i)
        (table.ssn (.head i)).flows)).set (.head i) { table.ssn (.head i) with
          empty := true, good := false }).Sound bufs chains :=
      hrelease.set_head rfl rfl
    have hsound := hset.addActive (-1)
    refine ⟨_, chains, ssnPurgeSsn_head hindex member, hsound,
      h.removed_head hsound hlive rfl rfl rfl rfl, ?_, rfl⟩
    rw [if_pos (Or.inl rfl)]
    rfl
  · have hne : p ≠ .head i := ne_of_mem_of_not_mem hlinked (h.head_notMem i i)
    obtain ⟨unlinked, hunlink, hrelinked, hsound⟩ := hrelease.unlink hlinked
    have hresult := ssnPurgeSsn_linked hindex hne hunlink member
    cases member with
    | false =>
        refine ⟨unlinked, _, hresult, hsound,
          h.removed_of_unlinked hlinked hrelinked.ssn hrelinked.timers hsound,
          ?_, hrelinked.released⟩
        rw [if_neg (by simp [hne]), Int.sub_zero]
        exact hrelinked.activeNum
    | true =>
        have hgone : ∀ j, p ∉ Function.update chains i
            ((chains i).erase p) j := by
          intro j hmem
          by_cases hj : j = i
          · rw [hj, Function.update_self] at hmem
            exact (h.chain i).nodup.not_mem_erase hmem
          · rw [Function.update_of_ne hj] at hmem
            exact hj (h.eq_of_mem hmem hlinked)
        have hpool : p ∉ unlinked.pool := by
          rw [hrelinked.pool]
          exact h.notMem_pool hlinked
        have hfreed : ((unlinked.fpaFree p).addActive (-1)).Sound bufs
            (Function.update chains i ((chains i).erase p)) :=
          (hsound.free (h.buffers i p hlinked) hgone hpool).addActive (-1)
        refine ⟨_, _, hresult, hfreed,
          h.removed_of_unlinked hlinked hrelinked.ssn hrelinked.timers hfreed,
          ?_, hrelinked.released⟩
        rw [if_pos (Or.inr rfl)]
        exact congrArg (· + (-1)) hrelinked.activeNum

end Purge

section Prepare

variable {args : PrepareArgs} {env : PrepareEnv}

/-- The pool has the buffer that it is said to hand out. -/
def HandsOut (table : SsnTable) (env : PrepareEnv) : Prop :=
  ∃ p ∈ table.pool, env.alloc = some p

instance (table : SsnTable) (env : PrepareEnv) :
    Decidable (table.HandsOut env) :=
  inferInstanceAs (Decidable (∃ p ∈ table.pool, env.alloc = some p))

/-- The refusals of `ssn_prepare` that leave `stat_ssn_active_num` one higher:
the buffer is no member of the pool, or the timer cannot be added. -/
def PrepareLeaks (table : SsnTable) (i : Nat) (args : PrepareArgs)
    (env : PrepareEnv) : Prop :=
  args.thFlags &&& (thFin ||| thRst) = 0 ∧ table.activeNum < ssnTotalNum ∧
    (((table.ssn (.head i)).empty = true ∧ env.timerOk = false) ∨
      ((table.ssn (.head i)).empty = false ∧ table.HandsOut env ∧
        (env.member = false ∨ env.timerOk = false)))

instance (table : SsnTable) (i : Nat) (args : PrepareArgs)
    (env : PrepareEnv) : Decidable (table.PrepareLeaks i args env) :=
  inferInstanceAs (Decidable (_ = _ ∧ _ < _ ∧ (_ = _ ∧ _ = _ ∨
    _ = _ ∧ table.HandsOut env ∧ (_ = _ ∨ _ = _))))

/-- What a refusal means: the live sessions stay as they are. -/
structure Refused (bufs : Nat) (table table' : SsnTable) : Prop where
  sessions : ∀ j, table'.sessions bufs j = table.sessions bufs j
  key : ∀ j, ∀ q ∈ table.sessions bufs j,
    (table'.ssn q).key = (table.ssn q).key
  timers : table'.timers = table.timers
  released : ∀ q flows, SsnRelease.purged q flows ∈ table'.released →
    SsnRelease.purged q flows ∈ table.released

/-- What a success means: one more session in its bucket. -/
structure Created (bufs : Nat) (table table' : SsnTable) (p : SsnPtr)
    (i : Nat) (args : PrepareArgs) : Prop where
  fresh : ∀ j, p ∉ table.sessions bufs j
  sessions : (table'.sessions bufs i).Perm (p :: table.sessions bufs i)
  others : ∀ j ≠ i, table'.sessions bufs j = table.sessions bufs j
  key : (table'.ssn p).key = .prepared args.data0 args.data1 args.mask
  keys : ∀ q ≠ p, (table'.ssn q).key = (table.ssn q).key
  timers : table'.timers = p :: table.timers
  released : table'.released = table.released

theorem takeNode_head (table : SsnTable) (env : PrepareEnv)
    (hempty : (table.ssn (.head i)).empty = true) :
    table.takeNode i env =
      (some (.head i), table.set (.head i) { table.ssn (.head i) with
        empty := false }) := by
  rw [takeNode]
  exact if_pos hempty

theorem fpaAlloc_of_not_handsOut (hnone : ¬ table.HandsOut env) :
    table.fpaAlloc env.alloc = (none, table) := by
  cases halloc : env.alloc with
  | none => rfl
  | some p => exact if_neg fun hp => hnone ⟨p, hp, halloc⟩

theorem takeNode_none (table : SsnTable)
    (hlive : (table.ssn (.head i)).empty = false)
    (hnone : ¬ table.HandsOut env) :
    table.takeNode i env = (none, table.addActive (-1)) := by
  rw [takeNode]
  simp only [hlive, Bool.false_eq_true, if_false,
    fpaAlloc_of_not_handsOut hnone]

theorem fpaAlloc_some (hp : p ∈ table.pool) :
    table.fpaAlloc (some p) = (some p, table.takeBuffer p) :=
  if_pos hp

theorem takeNode_stranger (table : SsnTable)
    (hlive : (table.ssn (.head i)).empty = false)
    (hp : p ∈ table.pool) (halloc : env.alloc = some p)
    (hmember : env.member = false) :
    table.takeNode i env = (none, table.takeBuffer p) := by
  rw [takeNode]
  simp only [hlive, Bool.false_eq_true, if_false, halloc, fpaAlloc_some hp,
    hmember]

theorem takeNode_linked (table : SsnTable)
    (hlive : (table.ssn (.head i)).empty = false)
    (hp : p ∈ table.pool) (halloc : env.alloc = some p)
    (hmember : env.member = true) :
    ∃ node : SsnNode, node.nextSc = table.next (.head i) ∧
      table.takeNode i env =
        (some p, ((table.takeBuffer p).set p node).set (.head i)
          { table.ssn (.head i) with nextSc := some p }) := by
  refine ⟨{ table.ssn p with
    empty := true, good := false, nextSc := table.next (.head i) }, rfl, ?_⟩
  rw [takeNode]
  simp only [hlive, Bool.false_eq_true, if_false, halloc, fpaAlloc_some hp,
    hmember, if_true]
  rfl

theorem ssnPrepare_refuse (hrefuse : args.thFlags &&& (thFin ||| thRst) ≠ 0 ∨
    ssnTotalNum ≤ table.activeNum) :
    table.ssnPrepare bufs i args env = some (none, table) := by
  rw [SsnTable.ssnPrepare]
  split
  · rfl
  · rename_i hflags
    exact if_pos (hrefuse.resolve_left hflags)

section Taken

variable {taken : SsnTable}
  (hflags : args.thFlags &&& (thFin ||| thRst) = 0)
  (hactive : table.activeNum < ssnTotalNum)

include hflags hactive

theorem ssnPrepare_none
    (htake : (table.addActive 1).takeNode i env = (none, taken)) :
    table.ssnPrepare bufs i args env = some (none, taken) := by
  rw [SsnTable.ssnPrepare, if_neg (not_not.2 hflags),
    if_neg (Int.not_le.2 hactive), htake]

theorem ssnPrepare_some
    (htake : (table.addActive 1).takeNode i env = (some p, taken))
    (htimer : env.timerOk = true) :
    table.ssnPrepare bufs i args env =
      some (some p, (taken.set p ((taken.ssn p).prepare i args)).addTimer p) := by
  rw [SsnTable.ssnPrepare, if_neg (not_not.2 hflags),
    if_neg (Int.not_le.2 hactive), htake]
  exact if_pos htimer

theorem ssnPrepare_undone
    (htake : (table.addActive 1).takeNode i env = (some p, taken))
    (htimer : env.timerOk = false)
    (hpurge : ssnPurgeSsnNolock bufs
      (taken.set p ((taken.ssn p).prepare i args)) p = some table') :
    table.ssnPrepare bufs i args env = some (none, table') := by
  rw [SsnTable.ssnPrepare, if_neg (not_not.2 hflags),
    if_neg (Int.not_le.2 hactive), htake]
  simp only [htimer, Bool.false_eq_true, if_false, hpurge]

end Taken

/-- A call that changes no chain and no `empty` bit of a head. -/
theorem Sound.refused (h : table.Sound bufs chains)
    (h' : table'.Sound bufs chains)
    (hempty : ∀ j, (table'.ssn (.head j)).empty =
      (table.ssn (.head j)).empty)
    (hkey : ∀ j, ∀ q ∈ table.sessions bufs j,
      (table'.ssn q).key = (table.ssn q).key)
    (htimers : table'.timers = table.timers)
    (hreleased : ∀ q flows, SsnRelease.purged q flows ∈ table'.released →
      SsnRelease.purged q flows ∈ table.released) :
    Refused bufs table table' := by
  refine ⟨?_, hkey, htimers, hreleased⟩
  intro j
  rw [h'.sessions_eq, h.sessions_eq, hempty]

theorem Sound.refused_of_eq (h : table.Sound bufs chains)
    (h' : table'.Sound bufs chains) (hssn : table'.ssn = table.ssn)
    (htimers : table'.timers = table.timers)
    (hreleased : table'.released = table.released) :
    Refused bufs table table' := by
  refine h.refused h' ?_ ?_ htimers ?_
  · intro j
    rw [hssn]
  · intro j q hq
    rw [hssn]
  · intro q flows hmem
    rwa [hreleased] at hmem

theorem purged_mem_undone {released : List SsnRelease} {q : SsnPtr}
    {flows flows' : MppSsn}
    (hmem : SsnRelease.purged q flows ∈ released ++ [.undone p flows']) :
    SsnRelease.purged q flows ∈ released := by
  rcases List.mem_append.1 hmem with hold | hnew
  · exact hold
  · nomatch List.mem_singleton.1 hnew

/-- The node of a bucket whose head was empty. -/
theorem Sound.set_prepared_head (h : table.Sound bufs chains)
    {node : SsnNode} (hnext : node.nextSc = table.next (.head i))
    (hindex : node.ssnIndex = i) :
    (table.set (.head i) node).Sound bufs chains := by
  refine h.set hnext ?_ ?_
  · intro j hj
    exact absurd hj (h.head_notMem i j)
  · intro j hj _
    rw [hindex]
    exact SsnPtr.head.inj hj

theorem set_set (table : SsnTable) (p : SsnPtr) (node node' : SsnNode) :
    (table.set p node).set p node' = table.set p node' := by
  rw [SsnTable.set, SsnTable.set, SsnTable.set, Function.update_idem]

theorem set_set_set (table : SsnTable) {p q : SsnPtr} (hpq : p ≠ q)
    (node node' node'' : SsnNode) :
    ((table.set p node).set q node').set p node'' =
      (table.set p node'').set q node' := by
  simp only [SsnTable.set]
  rw [Function.update_comm hpq.symm, Function.update_idem]

/-- How `ssn_prepare` ends. -/
def PrepareEnds (bufs : Nat) (table : SsnTable) (i : Nat) (args : PrepareArgs)
    (env : PrepareEnv) (result : Option SsnPtr) (table' : SsnTable) : Prop :=
  (result = none ∧ Refused bufs table table' ∧
    table'.activeNum =
      table.activeNum + if table.PrepareLeaks i args env then 1 else 0) ∨
  (∃ p, result = some p ∧ Created bufs table table' p i args ∧
    ¬ table.PrepareLeaks i args env ∧
    table'.activeNum = table.activeNum + 1)

theorem Sound.head_notLive (h : table.Sound bufs chains)
    (hempty : (table.ssn (.head i)).empty = true) (j : Nat) :
    SsnPtr.head i ∉ table.sessions bufs j := by
  intro hmem
  rcases h.mem_sessions.1 hmem with ⟨heq, hlive⟩ | hlinked
  · rw [← heq, hempty] at hlive
    nomatch hlive
  · exact h.head_notMem i j hlinked

theorem set_prepare (table : SsnTable) (p : SsnPtr) (node : SsnNode) :
    (table.set p node).set p (((table.set p node).ssn p).prepare i args) =
      table.set p (node.prepare i args) := by
  rw [ssn_set, Function.update_self, set_set]

theorem ssnPurgeSsnNolock_head (table : SsnTable) (node : SsnNode)
    (hindex : node.ssnIndex = i) :
    ssnPurgeSsnNolock bufs (table.set (.head i) node) (.head i) =
      some ((table.release (.undone (.head i) node.flows)).set (.head i)
        { node with empty := true }) := by
  rw [ssnPurgeSsnNolock, ssn_set, Function.update_self, hindex]
  refine (if_pos rfl).trans ?_
  rw [← set_set (table.release _) (.head i) node]
  rfl

/-- The new session in a bucket whose head was empty. -/
theorem Sound.created_head (h : table.Sound bufs chains)
    (h' : table'.Sound bufs chains)
    (hempty : (table.ssn (.head i)).empty = true) {node : SsnNode}
    (hssn : table'.ssn = Function.update table.ssn (.head i) node)
    (hlive : node.empty = false)
    (hkey : node.key = .prepared args.data0 args.data1 args.mask)
    (htimers : table'.timers = .head i :: table.timers)
    (hreleased : table'.released = table.released) :
    Created bufs table table' (.head i) i args := by
  refine ⟨h.head_notLive hempty, ?_, ?_, ?_, ?_, htimers, hreleased⟩
  · rw [h'.sessions_eq, h.sessions_eq, hssn, Function.update_self, hempty,
      hlive]
    exact List.Perm.refl _
  · intro j hj
    rw [h'.sessions_eq, h.sessions_eq, hssn,
      Function.update_of_ne fun heq => hj (SsnPtr.head.inj heq)]
  · rw [hssn, Function.update_self, hkey]
  · intro q hq
    rw [hssn, Function.update_of_ne hq]

theorem Sound.refused_head (h : table.Sound bufs chains)
    (h' : table'.Sound bufs chains)
    (hempty : (table.ssn (.head i)).empty = true) {node : SsnNode}
    (hssn : table'.ssn = Function.update table.ssn (.head i) node)
    (hdead : node.empty = true) (htimers : table'.timers = table.timers)
    (hreleased : ∀ q flows, SsnRelease.purged q flows ∈ table'.released →
      SsnRelease.purged q flows ∈ table.released) :
    Refused bufs table table' := by
  refine h.refused h' ?_ ?_ htimers hreleased
  · intro j
    rw [hssn]
    by_cases hj : j = i
    · rw [hj, Function.update_self, hdead, hempty]
    · rw [Function.update_of_ne fun heq => hj (SsnPtr.head.inj heq)]
  · intro j q hq
    have hne : q ≠ .head i := by
      rintro rfl
      exact h.head_notLive hempty j hq
    rw [hssn, Function.update_of_ne hne]

/-- `ssn_prepare` with an empty head. -/
theorem Sound.ssnPrepare_head (h : table.Sound bufs chains)
    (hflags : args.thFlags &&& (thFin ||| thRst) = 0)
    (hactive : table.activeNum < ssnTotalNum)
    (hempty : (table.ssn (.head i)).empty = true) :
    ∃ result table' chains',
      table.ssnPrepare bufs i args env = some (result, table') ∧
      table'.Sound bufs chains' ∧
      PrepareEnds bufs table i args env result table' := by
  obtain ⟨node, hnext, hlive, htake⟩ : ∃ node : SsnNode,
      node.nextSc = table.next (.head i) ∧ node.empty = false ∧
      (table.addActive 1).takeNode i env =
        (some (.head i), (table.addActive 1).set (.head i) node) :=
    ⟨{ table.ssn (.head i) with empty := false }, rfl, rfl,
      takeNode_head (table.addActive 1) env hempty⟩
  have hsound : ((table.addActive 1).set (.head i) (node.prepare i args)).Sound
      bufs chains := (h.addActive 1).set_prepared_head hnext rfl
  cases htimer : env.timerOk with
  | true =>
      have hresult : table.ssnPrepare bufs i args env = _ :=
        ssnPrepare_some hflags hactive htake htimer
      rw [set_prepare] at hresult
      refine ⟨_, _, chains, hresult, hsound.addTimer _, Or.inr
        ⟨.head i, rfl, ?_, ?_, rfl⟩⟩
      · exact h.created_head (hsound.addTimer _) hempty rfl hlive rfl rfl rfl
      · rintro ⟨-, -, ⟨-, hfails⟩ | ⟨hnot, -⟩⟩
        · rw [htimer] at hfails
          nomatch hfails
        · rw [hempty] at hnot
          nomatch hnot
  | false =>
      have hpurge : ssnPurgeSsnNolock bufs _ (.head i) = _ :=
        ssnPurgeSsnNolock_head (table.addActive 1) (node.prepare i args) rfl
      rw [← set_prepare] at hpurge
      have hresult : table.ssnPrepare bufs i args env = _ :=
        ssnPrepare_undone hflags hactive htake htimer hpurge
      have hdead : (((table.addActive 1).release (.undone (.head i)
          (node.prepare i args).flows)).set (.head i)
          { node.prepare i args with empty := true }).Sound bufs chains :=
        ((h.addActive 1).release _).set_head hnext rfl
      have hleaks : table.PrepareLeaks i args env :=
        ⟨hflags, hactive, Or.inl ⟨hempty, htimer⟩⟩
      refine ⟨_, _, chains, hresult, hdead, Or.inl ⟨rfl, ?_, ?_⟩⟩
      · refine h.refused_head hdead hempty rfl rfl rfl ?_
        intro q flows hmem
        exact purged_mem_undone hmem
      · rw [if_pos hleaks]
        rfl

theorem set_prepare_linked (table : SsnTable) {p q : SsnPtr} (hpq : p ≠ q)
    (node node' : SsnNode) :
    ((table.set p node).set q node').set p
        ((((table.set p node).set q node').ssn p).prepare i args) =
      (table.set p (node.prepare i args)).set q node' := by
  rw [ssn_set, Function.update_of_ne hpq, ssn_set, Function.update_self,
    set_set_set table hpq]

theorem ssnPurgeSsnNolock_linked (hindex : (table.ssn p).ssnIndex = i)
    (hne : p ≠ .head i)
    (hunlink : (table.release (.undone p (table.ssn p).flows)).unlink bufs p =
      some table') :
    ssnPurgeSsnNolock bufs table p = some (table'.fpaFree p) := by
  rw [ssnPurgeSsnNolock]
  simp only [hindex, if_neg hne, hunlink]

theorem update_link_of_ne (ssn : SsnPtr → SsnNode) {q : SsnPtr}
    (hq : q ≠ p) (i : Nat) (node : SsnNode) (link : Option SsnPtr) :
    (Function.update (Function.update ssn p node) (.head i)
      { ssn (.head i) with nextSc := link } q).empty = (ssn q).empty ∧
    (Function.update (Function.update ssn p node) (.head i)
      { ssn (.head i) with nextSc := link } q).key = (ssn q).key := by
  by_cases hhead : q = .head i
  · rw [hhead, Function.update_self]
    exact ⟨rfl, rfl⟩
  · rw [Function.update_of_ne hhead, Function.update_of_ne hq]
    exact ⟨rfl, rfl⟩

/-- A buffer of the pool is no live session. -/
theorem Sound.pool_notLive (h : table.Sound bufs chains)
    (hp : p ∈ table.pool) (j : Nat) : p ∉ table.sessions bufs j := by
  intro hmem
  obtain ⟨⟨number, -, rfl⟩, hchains⟩ := h.pool p hp
  rcases h.mem_sessions.1 hmem with ⟨heq, -⟩ | hlinked
  · nomatch heq
  · exact hchains j hlinked

section Linking

variable (h : table.Sound bufs chains) (hp : p ∈ table.pool)
  (hlive : (table.ssn (.head i)).empty = false)

include h hp

theorem Sound.pool_ne_head (j : Nat) : SsnPtr.head j ≠ p := by
  obtain ⟨⟨number, -, rfl⟩, -⟩ := h.pool p hp
  nofun

/-- The buffer is linked behind the head before its timer is added. -/
theorem Sound.linked (args : PrepareArgs) {node : SsnNode}
    (hnext : node.nextSc = table.next (.head i)) :
    ((((table.addActive 1).takeBuffer p).set p (node.prepare i args)).set
      (.head i) { table.ssn (.head i) with nextSc := some p }).Sound bufs
        (Function.update chains i (p :: chains i)) := by
  obtain ⟨hbuffer, hchains⟩ := h.pool p hp
  exact ((h.addActive 1).takeBuffer p).link hbuffer hchains
    h.poolNodup.not_mem_erase hnext rfl

include hlive

/-- The new session behind a live head. -/
theorem Sound.created_linked {node : SsnNode}
    (h' : table'.Sound bufs (Function.update chains i (p :: chains i)))
    (hssn : table'.ssn = Function.update (Function.update table.ssn p node)
      (.head i) { table.ssn (.head i) with nextSc := some p })
    (hkey : node.key = .prepared args.data0 args.data1 args.mask)
    (htimers : table'.timers = p :: table.timers)
    (hreleased : table'.released = table.released) :
    Created bufs table table' p i args := by
  have hne := h.pool_ne_head hp
  refine ⟨h.pool_notLive hp, ?_, ?_, ?_, ?_, htimers, hreleased⟩
  · rw [h'.sessions_eq, h.sessions_eq, hssn, Function.update_self, hlive,
      Function.update_self]
    exact List.Perm.swap ..
  · intro j hj
    rw [h'.sessions_eq, h.sessions_eq, hssn,
      Function.update_of_ne fun heq => hj (SsnPtr.head.inj heq),
      Function.update_of_ne (hne j), Function.update_of_ne hj]
  · rw [hssn, Function.update_of_ne (hne i).symm, Function.update_self, hkey]
  · intro q hq
    rw [hssn]
    exact (update_link_of_ne table.ssn hq i node (some p)).2

variable (hflags : args.thFlags &&& (thFin ||| thRst) = 0)
  (hactive : table.activeNum < ssnTotalNum) (halloc : env.alloc = some p)
  (hmember : env.member = true)

include hflags hactive halloc hmember

/-- `ssn_prepare` with a live head, a buffer of the pool and a timer. -/
theorem Sound.ssnPrepare_linked (htimer : env.timerOk = true) :
    ∃ result table' chains',
      table.ssnPrepare bufs i args env = some (result, table') ∧
      table'.Sound bufs chains' ∧
      PrepareEnds bufs table i args env result table' := by
  have hne := h.pool_ne_head hp
  obtain ⟨node, hnext, htake⟩ := takeNode_linked (table.addActive 1) hlive hp
    halloc hmember
  have hsound := (h.linked hp args hnext).addTimer p
  have hresult : table.ssnPrepare bufs i args env = _ :=
    ssnPrepare_some hflags hactive htake htimer
  rw [set_prepare_linked _ (hne i).symm] at hresult
  refine ⟨_, _, _, hresult, hsound, Or.inr ⟨p, rfl, ?_, ?_, rfl⟩⟩
  · exact h.created_linked hp hlive hsound rfl rfl rfl rfl
  · rintro ⟨-, -, ⟨hnot, -⟩ | ⟨-, -, hfails | hfails⟩⟩
    · rw [hlive] at hnot
      nomatch hnot
    · rw [hmember] at hfails
      nomatch hfails
    · rw [htimer] at hfails
      nomatch hfails

/-- Without a timer the buffer is unlinked again and goes back to the pool. -/
theorem Sound.ssnPrepare_unlinked (htimer : env.timerOk = false) :
    ∃ result table' chains',
      table.ssnPrepare bufs i args env = some (result, table') ∧
      table'.Sound bufs chains' ∧
      PrepareEnds bufs table i args env result table' := by
  have hne := h.pool_ne_head hp
  obtain ⟨hbuffer, hchains⟩ := h.pool p hp
  obtain ⟨node, hnext, htake⟩ := takeNode_linked (table.addActive 1) hlive hp
    halloc hmember
  have hsound := h.linked hp args hnext
  have hindex : (((((table.addActive 1).takeBuffer p).set p
      (node.prepare i args)).set (.head i)
      { table.ssn (.head i) with nextSc := some p }).ssn p).ssnIndex = i := by
    rw [ssn_set, Function.update_of_ne (hne i).symm, ssn_set,
      Function.update_self]
    rfl
  obtain ⟨unlinked, hunlink, hrelinked, hunlinked⟩ :=
    (hsound.release (.undone p _)).unlink
      (Function.update_self i (p :: chains i) chains ▸ List.mem_cons_self)
  rw [Function.update_self, List.erase_cons_head, Function.update_idem,
    Function.update_eq_self] at hunlinked
  have hpurge := ssnPurgeSsnNolock_linked hindex (hne i).symm hunlink
  rw [← set_prepare_linked _ (hne i).symm] at hpurge
  have hresult : table.ssnPrepare bufs i args env = _ :=
    ssnPrepare_undone hflags hactive htake htimer hpurge
  have hpool : p ∉ unlinked.pool := by
    rw [hrelinked.pool]
    exact h.poolNodup.not_mem_erase
  have hfreed := hunlinked.free hbuffer hchains hpool
  have hleaks : table.PrepareLeaks i args env :=
    ⟨hflags, hactive, Or.inr ⟨hlive, ⟨p, hp, halloc⟩, Or.inr htimer⟩⟩
  refine ⟨_, _, chains, hresult, hfreed, Or.inl ⟨rfl, ?_, ?_⟩⟩
  · refine h.refused hfreed ?_ ?_ hrelinked.timers ?_
    · intro j
      exact (hrelinked.empty _).trans (update_link_of_ne table.ssn (hne j) i
        (node.prepare i args) (some p)).1
    · intro j q hq
      have hqp : q ≠ p := by
        rintro rfl
        exact h.pool_notLive hp j hq
      exact (hrelinked.key _).trans (update_link_of_ne table.ssn hqp i
        (node.prepare i args) (some p)).2
    · intro q flows hmem
      exact purged_mem_undone (hrelinked.released ▸ hmem)
  · rw [if_pos hleaks]
    exact hrelinked.activeNum

end Linking

/-- The ways out of `ssn_prepare` on which no node is written. -/
theorem Sound.prepareEnds_of_eq (h : table.Sound bufs chains)
    (h' : table'.Sound bufs chains) (hssn : table'.ssn = table.ssn)
    (htimers : table'.timers = table.timers)
    (hreleased : table'.released = table.released)
    (hactive : table'.activeNum =
      table.activeNum + if table.PrepareLeaks i args env then 1 else 0) :
    PrepareEnds bufs table i args env none table' :=
  Or.inl ⟨rfl, h.refused_of_eq h' hssn htimers hreleased, hactive⟩

/-- `ssn_prepare` always returns: it refuses the session or adds it to its
bucket. -/
theorem Sound.ssnPrepare (h : table.Sound bufs chains) (i : Nat)
    (args : PrepareArgs) (env : PrepareEnv) :
    ∃ result table' chains',
      table.ssnPrepare bufs i args env = some (result, table') ∧
      table'.Sound bufs chains' ∧
      PrepareEnds bufs table i args env result table' := by
  by_cases hrefuse : args.thFlags &&& (thFin ||| thRst) ≠ 0 ∨
      ssnTotalNum ≤ table.activeNum
  · refine ⟨_, _, chains, ssnPrepare_refuse hrefuse, h,
      h.prepareEnds_of_eq h rfl rfl rfl ?_⟩
    have hno : ¬ table.PrepareLeaks i args env := by
      rintro ⟨hflags, hactive, -⟩
      rcases hrefuse with hbad | hfull
      · exact hbad hflags
      · exact Int.not_le.2 hactive hfull
    rw [if_neg hno, Int.add_zero]
  · obtain ⟨hflags, hfull⟩ := not_or.1 hrefuse
    have hflags := not_not.1 hflags
    have hactive := Int.not_le.1 hfull
    cases hempty : (table.ssn (.head i)).empty with
    | true => exact h.ssnPrepare_head hflags hactive hempty
    | false =>
        by_cases hhands : table.HandsOut env
        · obtain ⟨p, hp, halloc⟩ := hhands
          cases hmember : env.member with
          | true =>
              cases htimer : env.timerOk with
              | true =>
                  exact h.ssnPrepare_linked hp hempty hflags hactive halloc
                    hmember htimer
              | false =>
                  exact h.ssnPrepare_unlinked hp hempty hflags hactive halloc
                    hmember htimer
          | false =>
              have htake := takeNode_stranger (table.addActive 1) hempty hp
                halloc hmember
              have hleaks : table.PrepareLeaks i args env :=
                ⟨hflags, hactive,
                  Or.inr ⟨hempty, ⟨p, hp, halloc⟩, Or.inl hmember⟩⟩
              refine ⟨_, _, chains, ssnPrepare_none hflags hactive htake,
                (h.addActive 1).takeBuffer p, h.prepareEnds_of_eq
                  ((h.addActive 1).takeBuffer p) rfl rfl rfl ?_⟩
              rw [if_pos hleaks]
              rfl
        · have htake := takeNode_none (table.addActive 1) hempty hhands
          have hno : ¬ table.PrepareLeaks i args env := by
            rintro ⟨-, -, ⟨hnot, -⟩ | ⟨-, hhands', -⟩⟩
            · rw [hempty] at hnot
              nomatch hnot
            · exact hhands hhands'
          refine ⟨_, _, chains, ssnPrepare_none hflags hactive htake,
            (h.addActive 1).addActive (-1), h.prepareEnds_of_eq
              ((h.addActive 1).addActive (-1)) rfl rfl rfl ?_⟩
          rw [if_neg hno, Int.add_zero]
          exact Int.add_neg_cancel_right table.activeNum 1

end Prepare

end SsnTable
end Barley
