/-
Every response goes to the call that waits for it, and the list has the requests
that were added and not removed.  This holds until the allocation of a packet
fails: that call takes a request out of the list that was never in it.
-/
import Barley.CoreCmdSteps

namespace Barley

/-- The request list, the results of the calls and the responses on the way are
as they should be. -/
structure CoreCmdState.Matched {C : Type} (s : CoreCmdState C) : Prop where
  running : s.crashed = false
  list : CircList.Cycle s.links .head (s.listed.map .req)
  listed : ∀ req, req ∈ s.listed ↔ ∃ c, (s.calls c).added = some req
  removes : ∀ c req rv, (s.calls c).pc = .remove req rv → req ∈ s.listed
  numbers : ∀ c d, (s.calls c).number = (s.calls d).number →
    (s.calls c).number ≠ 0 → c = d
  results : ∀ c ret, (s.calls c).pc = .ret (.card ret) →
    ∃ respond, s.answers (s.calls c).number = some respond ∧
      (s.calls c).Got respond ret
  unchanged : ∀ c rv, (s.calls c).pc = .ret rv → rv.value ≠ 0 →
    (s.calls c).Untouched
  responses : ∀ n ∈ s.wire, ∀ respond, s.answers n = some respond →
    ∀ req, (∀ c, (s.calls c).added = some req → (s.calls c).number ≠ n) →
      (frcdrvCoreReqRespond respond (s.listed.map .req) s.reqs).2 req =
        s.reqs req

section Runs

variable {C : Type} {s : CoreCmdState C}

namespace CoreCmdInv

/-- The loop over the list ends, and visits the requests in it. -/
theorem walk (h : CoreCmdInv s) {steps : Nat}
    (hsteps : s.listed.length < steps) :
    s.links.walk .head steps .head = some (some (s.listed.map .req)) :=
  h.lists.list.walk (by rwa [List.length_map])

theorem matched (h : CoreCmdInv s) (hfew : s.Few) (hrun : s.crashed = false)
    (hnone : s.pktFails = 0) : s.Matched where
  running := hrun
  list := h.lists.list
  listed := h.lists.listed
  removes := by
    intro c req rv hpc
    have hmade : (s.calls c).number ≠ 0 := by
      intro hzero
      have hfails := h.fails.mpr ⟨c, by simp [CoreCmdCall.stray, hpc, hzero]⟩
      rw [hnone] at hfails
      exact Nat.lt_irrefl 0 hfails
    exact (h.lists.listed req).mpr ⟨c, by simp [CoreCmdCall.added, hpc, hmade]⟩
  numbers := h.numbers.unique
  results := by
    intro c ret hpc
    have hok := h.ok c
    simp only [CoreCmdCall.Ok, hpc] at hok
    exact hok
  unchanged := by
    intro c rv hpc hvalue
    have hok := h.ok c
    simp only [CoreCmdCall.Ok, hpc] at hok
    cases rv with
    | own fre => exact hok
    | card ret =>
        obtain ⟨respond, _, hgot⟩ := hok
        refine hgot.untouched (.inl ?_)
        rintro rfl
        exact hvalue rfl
  responses := by
    intro n hwire respond hanswer req hother
    rw [frcdrvCoreReqRespond_apply]
    apply if_neg
    rintro ⟨hmem, hseq⟩
    obtain ⟨r, hr, heq⟩ := List.mem_map.mp hmem
    cases heq
    obtain ⟨c, hadded⟩ := (h.lists.listed req).mp hr
    exact hother c hadded (h.number_eq hfew hwire hanswer hadded hseq)

end CoreCmdInv

variable [DecidableEq C]

theorem CoreCmdReachable.inv {args : C → CoreCmdArgs}
    {links : CircList.Links CoreReqNode} {reqs : Nat → CoreReq}
    (h : CoreCmdReachable (CoreCmdState.init args links reqs) s) :
    s.Few ∧ (s.crashed = false ∧ CoreCmdInv s ∨
      s.crashed = true ∧ 0 < s.pktFails) := by
  induction h with
  | start =>
      refine ⟨?_, .inl ⟨rfl, CoreCmdInv.init args links reqs⟩⟩
      exact fun n _ => Nat.lt_of_lt_of_le (by decide : 0 < 2 ^ 32)
        (Nat.le_add_left _ n)
  | step _ hrun hstep hfew ih =>
      refine ⟨hfew, ?_⟩
      rcases ih with ⟨hfew, ⟨_, hinv⟩ | ⟨hcrashed, _⟩⟩
      · exact hinv.step hfew hrun hstep
      · rw [hrun] at hcrashed
        nomatch hcrashed

/-- In every state that any order of the steps leads to, the calls are matched
with their responses exactly if the allocation of a packet has not failed. -/
theorem coreCmd_matched_iff {args : C → CoreCmdArgs}
    {links : CircList.Links CoreReqNode} {reqs : Nat → CoreReq}
    (h : CoreCmdReachable (CoreCmdState.init args links reqs) s) :
    s.Matched ↔ s.pktFails = 0 := by
  obtain ⟨hfew, ⟨hrun, hinv⟩ | ⟨hcrashed, hfails⟩⟩ := h.inv
  · refine ⟨?_, hinv.matched hfew hrun⟩
    intro hmatched
    by_contra hne
    obtain ⟨c, hstray⟩ := hinv.fails.mp (Nat.pos_of_ne_zero hne)
    unfold CoreCmdCall.stray at hstray
    cases hpc : (s.calls c).pc with
    | remove req rv =>
        simp only [hpc, beq_iff_eq] at hstray
        have hmem := hmatched.removes c req rv hpc
        refine hinv.lists.not_listed (c := c) ?_ hmem
        simp [CoreCmdCall.loose, hpc, hstray]
    | _ => simp [hpc] at hstray
  · refine iff_of_false ?_ (Nat.ne_of_gt hfails)
    intro hmatched
    rw [hmatched.running] at hcrashed
    cases hcrashed

end Runs

section OneCall

/-- A call without input and output. -/
def oneCoreCmd : CoreCmdState Unit :=
  .init (fun _ => ⟨0, 0, 0, none, none⟩) ⟨fun _ => none, fun _ => none⟩
    fun _ => .zero

theorem few_of_made {s : CoreCmdState Unit} (h : s.made ≤ 1) : s.Few :=
  fun n _ => calc
    s.made ≤ 1 := h
    _ < 2 ^ 32 := by decide
    _ ≤ n + 2 ^ 32 := Nat.le_add_left _ n

/-- The call has its request. -/
theorem oneCoreCmd_mallocReq :
    CoreCmdReachable oneCoreCmd ((oneCoreCmd.setCall ()
      (oneCoreCmd.calls ()).enter).mallocReq () (some 0)) := by
  have henter : CoreCmdReachable oneCoreCmd _ :=
    .step .start rfl (.enter (c := ()) rfl) (few_of_made (Nat.zero_le 1))
  refine henter.step rfl (.mallocReq (c := ()) (some 0) rfl ?_)
    (few_of_made (Nat.zero_le 1))
  intro req _ d hheld
  nomatch hheld

/-- The command of the call is on its way. -/
def oneCoreCmdSent : CoreCmdState Unit :=
  ((((oneCoreCmd.setCall () (oneCoreCmd.calls ()).enter).mallocReq ()
    (some 0)).mallocPkt () 0 true).add () 0).send () 0 true

theorem oneCoreCmdSent_reachable :
    CoreCmdReachable oneCoreCmd oneCoreCmdSent := by
  have hreq := oneCoreCmd_mallocReq.step rfl (.mallocPkt (c := ()) true rfl)
    (few_of_made (Nat.zero_le 1))
  have hadded := hreq.step rfl (.add (c := ()) rfl) (few_of_made (Nat.le_refl 1))
  exact hadded.step rfl (.send (c := ()) true rfl) (few_of_made (Nat.le_refl 1))

theorem coreCmd_matched_iff_sent :
    oneCoreCmdSent.wire = [1] ∧ oneCoreCmdSent.listed = [0] ∧
      oneCoreCmdSent.Matched :=
  ⟨rfl, rfl, (coreCmd_matched_iff oneCoreCmdSent_reachable).mpr rfl⟩

/-- The packet of the call cannot be allocated. -/
def oneCoreCmdFailed : CoreCmdState Unit :=
  ((oneCoreCmd.setCall () (oneCoreCmd.calls ()).enter).mallocReq ()
    (some 0)).mallocPkt () 0 false

theorem oneCoreCmdFailed_reachable :
    CoreCmdReachable oneCoreCmd oneCoreCmdFailed :=
  oneCoreCmd_mallocReq.step rfl (.mallocPkt false rfl)
    (few_of_made (Nat.zero_le 1))

/-- The call takes its request out of the list, where it is not, and the host
crashes. -/
theorem oneCoreCmd_crashes :
    CoreCmdReachable oneCoreCmd
        (oneCoreCmdFailed.remove () 0 (.own .memory)) ∧
      (oneCoreCmdFailed.remove () 0 (.own .memory)).crashed = true ∧
      ¬ (oneCoreCmdFailed.remove () 0 (.own .memory)).Matched := by
  have hcrashed :
      (oneCoreCmdFailed.remove () 0 (.own .memory)).crashed = true := rfl
  refine ⟨oneCoreCmdFailed_reachable.step rfl (.remove rfl)
    (few_of_made (Nat.zero_le 1)), hcrashed, ?_⟩
  intro hmatched
  rw [hmatched.running] at hcrashed
  nomatch hcrashed

end OneCall

end Barley
