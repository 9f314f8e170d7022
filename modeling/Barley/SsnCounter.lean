/-
`stat_ssn_active_num` against the number of live sessions, over every sequence
of calls of `ssn_prepare` and `ssn_purge_ssn`.
-/
import Barley.SsnTableSteps

namespace Barley

/-- A live session of the table. -/
def SsnTable.IsLive (bufs : Nat) (table : SsnTable) (p : SsnPtr) : Prop :=
  (table.ssn p).ssnIndex < ssnHashBucketSize ∧
    p ∈ table.sessions bufs (table.ssn p).ssnIndex

instance (bufs : Nat) (table : SsnTable) (p : SsnPtr) :
    Decidable (table.IsLive bufs p) :=
  inferInstanceAs (Decidable (_ < _ ∧ _ ∈ _))

/-- A creation or a removal, with the outcomes of what it calls. -/
inductive SsnCall where
  | prepare (index : Fin ssnHashBucketSize) (args : PrepareArgs)
      (env : PrepareEnv)
  | purge (p : SsnPtr) (member : Bool)

section Calls

variable (bufs : Nat)

/-- One call; only live sessions are ever removed. -/
def SsnTable.call (table : SsnTable) : SsnCall → Option SsnTable
  | .prepare index args env =>
      (table.ssnPrepare bufs index args env).map Prod.snd
  | .purge p member =>
      if table.IsLive bufs p then ssnPurgeSsn bufs table p member
      else some table

def SsnTable.calls : List SsnCall → SsnTable → Option SsnTable
  | [], table => some table
  | call :: rest, table => (table.call bufs call).bind (SsnTable.calls rest)

/-- The calls that return without counting the session back: a refusal of
`ssn_prepare` for a buffer that is no member of the pool or for a timer that
cannot be added, and the removal of a linked session that is no member. -/
def SsnCall.Leaks (table : SsnTable) : SsnCall → Prop
  | .prepare index args env => table.PrepareLeaks index args env
  | .purge p member =>
      table.IsLive bufs p ∧ p ≠ .head (table.ssn p).ssnIndex ∧ member = false

instance (table : SsnTable) (call : SsnCall) :
    Decidable (call.Leaks bufs table) :=
  match call with
  | .prepare index args env =>
      inferInstanceAs (Decidable (table.PrepareLeaks index args env))
  | .purge p _ =>
      inferInstanceAs (Decidable (table.IsLive bufs p ∧ _ ≠ _ ∧ _ = _))

/-- The number of such calls in a run. -/
def leakCount : List SsnCall → SsnTable → Nat
  | [], _ => 0
  | call :: rest, table =>
      (if call.Leaks bufs table then 1 else 0) +
        ((table.call bufs call).elim 0 (leakCount rest))

end Calls

section Count

variable {bufs : Nat} {table table' : SsnTable} {chains : Nat → List SsnPtr}
  {p : SsnPtr} {i : Nat}

/-- Only one bucket changes its number of sessions. -/
theorem liveNum_add (hi : i < ssnHashBucketSize)
    (hothers : ∀ j ≠ i, table'.sessions bufs j = table.sessions bufs j) :
    table'.liveNum bufs + (table.sessions bufs i).length =
      table.liveNum bufs + (table'.sessions bufs i).length := by
  have hmem : i ∈ Finset.range ssnHashBucketSize := Finset.mem_range.2 hi
  have hrest : ∑ j ∈ (Finset.range ssnHashBucketSize).erase i,
      (table'.sessions bufs j).length =
      ∑ j ∈ (Finset.range ssnHashBucketSize).erase i,
        (table.sessions bufs j).length := by
    refine Finset.sum_congr rfl ?_
    intro j hj
    rw [hothers j (Finset.ne_of_mem_erase hj)]
  rw [SsnTable.liveNum, SsnTable.liveNum,
    ← Finset.add_sum_erase _ _ hmem, ← Finset.add_sum_erase _ _ hmem, hrest]
  omega

theorem liveNum_removed (hi : i < ssnHashBucketSize)
    (hp : p ∈ table.sessions bufs i)
    (h : SsnTable.Removed bufs table table' p i) :
    table'.liveNum bufs + 1 = table.liveNum bufs := by
  have hadd := liveNum_add hi h.others
  have hpos := List.length_pos_of_mem hp
  rw [h.sessions, List.length_erase_of_mem hp] at hadd
  omega

theorem liveNum_created {args : PrepareArgs} (hi : i < ssnHashBucketSize)
    (h : SsnTable.Created bufs table table' p i args) :
    table'.liveNum bufs = table.liveNum bufs + 1 := by
  have hadd := liveNum_add hi h.others
  rw [h.sessions.length_eq, List.length_cons] at hadd
  omega

theorem liveNum_refused (h : SsnTable.Refused bufs table table') :
    table'.liveNum bufs = table.liveNum bufs := by
  rw [SsnTable.liveNum, SsnTable.liveNum]
  refine Finset.sum_congr rfl ?_
  intro j _
  rw [h.sessions]

/-- What one call does to the difference of the counter and the sessions. -/
theorem call_activeNum (h : table.Sound bufs chains) (call : SsnCall) :
    ∃ table' chains', table.call bufs call = some table' ∧
      table'.Sound bufs chains' ∧
      table'.activeNum - table'.liveNum bufs =
        table.activeNum - table.liveNum bufs +
          (if call.Leaks bufs table then 1 else 0) := by
  cases call with
  | prepare index args env =>
      obtain ⟨result, table', chains', hresult, hsound, hends⟩ :=
        h.ssnPrepare index args env
      refine ⟨table', chains', ?_, hsound, ?_⟩
      · rw [SsnTable.call, hresult, Option.map_some]
      · rcases hends with ⟨-, hrefused, hactive⟩ |
          ⟨p, -, hcreated, hkeeps, hactive⟩
        · rw [liveNum_refused hrefused, hactive]
          show _ = _ + if table.PrepareLeaks index args env then (1 : Int) else 0
          omega
        · have hno : ¬ (SsnCall.prepare index args env).Leaks bufs table :=
            hkeeps
          rw [liveNum_created index.isLt hcreated, hactive, if_neg hno]
          push_cast
          omega
  | purge p member =>
      by_cases hlive : table.IsLive bufs p
      · obtain ⟨table', chains', hresult, hsound, hremoved, hactive, -⟩ :=
          h.ssnPurgeSsn hlive.2 member
        refine ⟨table', chains', ?_, hsound, ?_⟩
        · rw [SsnTable.call, if_pos hlive, hresult]
        · have hnum := liveNum_removed hlive.1 hlive.2 hremoved
          rw [hactive]
          by_cases hleaks : (SsnCall.purge p member).Leaks bufs table
          · have hkept : ¬ (p = .head (table.ssn p).ssnIndex ∨
                member = true) := by
              rintro (hhead | hmember)
              · exact hleaks.2.1 hhead
              · exact Bool.false_ne_true (hleaks.2.2.symm.trans hmember)
            rw [if_pos hleaks, if_neg hkept]
            omega
          · have hcounted : p = .head (table.ssn p).ssnIndex ∨
                member = true := by
              by_contra hnone
              obtain ⟨hlinked, hmember⟩ := not_or.1 hnone
              exact hleaks ⟨hlive, hlinked, Bool.eq_false_iff.2 hmember⟩
            rw [if_neg hleaks, if_pos hcounted]
            omega
      · refine ⟨table, chains, ?_, h, ?_⟩
        · rw [SsnTable.call, if_neg hlive]
        · have hno : ¬ (SsnCall.purge p member).Leaks bufs table :=
            fun hleaks => hlive hleaks.1
          rw [if_neg hno, Int.add_zero]

theorem calls_activeNum (h : table.Sound bufs chains)
    (calls : List SsnCall) :
    ∃ table' chains', SsnTable.calls bufs calls table = some table' ∧
      table'.Sound bufs chains' ∧
      table'.activeNum - table'.liveNum bufs =
        table.activeNum - table.liveNum bufs + leakCount bufs calls table := by
  induction calls generalizing table chains with
  | nil => exact ⟨table, chains, rfl, h, (Int.add_zero _).symm⟩
  | cons call rest ih =>
      obtain ⟨next, nextChains, hcall, hsound, hnum⟩ := call_activeNum h call
      obtain ⟨table', chains', hrest, hsound', hnum'⟩ := ih hsound
      refine ⟨table', chains', ?_, hsound', ?_⟩
      · rw [SsnTable.calls, hcall, Option.bind_some, hrest]
      · rw [hnum', hnum, leakCount, hcall, Option.elim_some]
        by_cases hleaks : call.Leaks bufs table
        · rw [if_pos hleaks, if_pos hleaks]
          omega
        · rw [if_neg hleaks, if_neg hleaks]
          omega

end Count

section Initial

theorem SsnTable.init_sound (bufs : Nat) (memory : SsnPtr → SsnNode) :
    (SsnTable.init bufs memory).Sound bufs fun _ => [] := by
  refine ⟨?_, ?_, ?_, ?_, ?_, ?_⟩
  · intro i
    rfl
  · intro i p hp
    nomatch hp
  · intro i p hp
    nomatch hp
  · intro i hlive
    nomatch hlive
  · exact List.nodup_range.map fun _ _ heq => SsnPtr.buffer.inj heq
  · intro p hp
    obtain ⟨number, hnumber, rfl⟩ := List.mem_map.1 hp
    exact ⟨⟨number, List.mem_range.1 hnumber, rfl⟩, fun _ hmem => nomatch hmem⟩

theorem SsnTable.init_liveNum (bufs : Nat) (memory : SsnPtr → SsnNode) :
    (SsnTable.init bufs memory).liveNum bufs = 0 := by
  rw [SsnTable.liveNum]
  refine Finset.sum_eq_zero ?_
  intro i _
  rw [(SsnTable.init_sound bufs memory).sessions_eq]
  rfl

theorem init_calls_activeNum (bufs : Nat) (memory : SsnPtr → SsnNode)
    (calls : List SsnCall) :
    ∃ table, SsnTable.calls bufs calls (.init bufs memory) = some table ∧
      table.activeNum = table.liveNum bufs +
        leakCount bufs calls (.init bufs memory) := by
  obtain ⟨table, -, hcalls, -, hnum⟩ :=
    calls_activeNum (SsnTable.init_sound bufs memory) calls
  refine ⟨table, hcalls, ?_⟩
  rw [SsnTable.init_liveNum] at hnum
  have hzero : (SsnTable.init bufs memory).activeNum = 0 := rfl
  omega

/-- From the initial state on, for every sequence of creations and removals:
the counter is the number of live sessions exactly when no call so far has
returned without counting its session back. -/
theorem activeNum_eq_liveNum_iff (bufs : Nat) (memory : SsnPtr → SsnNode)
    (calls : List SsnCall) :
    ∃ table, SsnTable.calls bufs calls (.init bufs memory) = some table ∧
      (table.activeNum = table.liveNum bufs ↔
        leakCount bufs calls (.init bufs memory) = 0) := by
  obtain ⟨table, hcalls, hnum⟩ := init_calls_activeNum bufs memory calls
  refine ⟨table, hcalls, ?_⟩
  omega

/-- Memory that holds zeros. -/
def zeroMemory : SsnPtr → SsnNode := fun _ =>
  { key := ⟨0, 0⟩
    nextSc := none
    empty := false
    good := false
    ssnIndex := 0
    ttl := 0
    age := 0
    flows := ⟨0, 0, ⟨0, [], 0, false⟩, ⟨0, [], 0, false⟩⟩ }

/-- The first session of a bucket, for which the timer cannot be added. -/
def timerFails : SsnCall :=
  .prepare ⟨0, by decide⟩ ⟨0x0a0000010a000002#64, 0x0400005006000000#64,
    mppSsnHashMaskData64, thSyn, 1, 0, 2⟩ ⟨none, true, false⟩

theorem timerFails_activeNum_ne :
    ∃ table, SsnTable.calls 4 [timerFails] (.init 4 zeroMemory) = some table ∧
      table.activeNum ≠ table.liveNum 4 := by
  obtain ⟨table, hcalls, hnum⟩ :=
    init_calls_activeNum 4 zeroMemory [timerFails]
  have hleak : leakCount 4 [timerFails] (.init 4 zeroMemory) = 1 := by decide
  refine ⟨table, hcalls, ?_⟩
  omega

end Initial

end Barley
