/-
What each call holds between its steps, and the list that the calls share: it
has the requests that calls have added and not removed.
-/
import Barley.CoreCmd

namespace Barley

theorem frcoreProcessFrcCmd_seq (cmdset : Nat → FrcoreCmdSet)
    (cmd : FrcoreCmd) : (frcoreProcessFrcCmd cmdset cmd).seq = cmd.seq := by
  unfold frcoreProcessFrcCmd
  split
  · rfl
  · split
    · rfl
    · split
      · rfl
      · rfl

/-- Requests of which fewer than `2 ^ 32` were made differ in their `seq`. -/
theorem seq_inj {m n made : Nat} (hm : m ≤ made) (hn : n ≤ made)
    (hm' : made < m + 2 ^ 32) (hn' : made < n + 2 ^ 32)
    (h : BitVec.ofNat 32 m = BitVec.ofNat 32 n) : m = n := by
  have hmod := congrArg BitVec.toNat h
  rw [BitVec.toNat_ofNat, BitVec.toNat_ofNat] at hmod
  omega

/-- The response goes to the requests with its `seq`. -/
theorem frcdrvCoreReqRespond_apply (respond : FrcCmdRespond)
    (nodes : List CoreReqNode) (reqs : Nat → CoreReq) (req : Nat) :
    (frcdrvCoreReqRespond respond nodes reqs).2 req =
      if .req req ∈ nodes ∧ (reqs req).seq = respond.seq then
        { reqs req with respond := respond, state := .respond }
      else reqs req := by
  induction nodes generalizing reqs with
  | nil => simp [frcdrvCoreReqRespond]
  | cons node rest ih =>
      cases node with
      | head => simp [frcdrvCoreReqRespond, ih]
      | req r =>
          simp only [frcdrvCoreReqRespond]
          by_cases hr : req = r
          · subst hr
            by_cases hseq : (reqs req).seq = respond.seq
            · simp [hseq, ih]
            · simp [hseq, ih]
          · by_cases hseq : (reqs r).seq = respond.seq
            · simp [hseq, ih, hr]
            · simp [hseq, ih, hr]

/-- The memory of the caller is as it was. -/
def CoreCmdCall.Untouched (call : CoreCmdCall) : Prop :=
  call.olen = call.args.olen ∧ call.output = call.args.output

/-- The call has the `ret` of this response, and on success its `len` and its
data. -/
structure CoreCmdCall.Got (call : CoreCmdCall) (respond : FrcCmdRespond)
    (ret : BitVec 16) : Prop where
  seq : respond.seq = call.pkt.seq
  value : respond.ret = ret
  untouched : ret ≠ 0 ∨ call.args.olen = none ∨ call.args.output = none →
    call.Untouched
  len : ret = 0 → call.args.olen.isSome → call.args.output.isSome →
    call.olen = some respond.len
  data : ret = 0 → call.args.olen.isSome → ∀ before,
    call.args.output = some before → ∃ output, call.output = some output ∧
      (∀ k (hk : k < respond.data.length), k < respond.len.toNat →
        output k = respond.data[k]) ∧
      ∀ k, respond.len.toNat ≤ k → output k = before k

namespace CoreCmdCall

/-- What a call returns, or is about to. -/
def Result (answers : Nat → Option FrcCmdRespond) (call : CoreCmdCall) :
    CoreCmdRv → Prop
  | .own _ => call.Untouched
  | .card ret => ∃ respond, answers call.number = some respond ∧
      call.Got respond ret

/-- A call that has sent its command. -/
def Sent (call : CoreCmdCall) : Prop :=
  call.number ≠ 0 ∧ call.Untouched ∧
    call.pkt.seq = BitVec.ofNat 32 call.number

/-- What holds of a call between its steps. -/
def Ok (reqs : Nat → CoreReq) (answers : Nat → Option FrcCmdRespond)
    (call : CoreCmdCall) : Prop :=
  match call.pc with
  | .entry | .mallocReq | .mallocPkt _ | .add _ =>
      call.number = 0 ∧ call.Untouched
  | .send _ => call.number ≠ 0 ∧ call.Untouched
  | .wait _ _ => call.Sent
  | .check req | .take req => call.Sent ∧ (reqs req).state = .respond
  | .copy req rv => call.Sent ∧ (reqs req).state = .respond ∧
      rv = .card (reqs req).respond.ret ∧ (reqs req).respond.ret = 0 ∧
      call.olen.isSome ∧ call.output.isSome
  | .remove _ rv | .free _ rv | .ret rv => call.Result answers rv

/-- The call takes a request out of the list that was never added. -/
def stray (call : CoreCmdCall) : Bool :=
  match call.pc with
  | .remove _ _ => call.number == 0
  | _ => false

variable {call : CoreCmdCall} {req : Nat}

theorem req_of_added (h : call.added = some req) :
    call.pc.req = some req := by
  unfold added at h
  cases hpc : call.pc <;> simp_all [CoreCmdPc.req]

theorem req_of_loose (h : call.loose = some req) :
    call.pc.req = some req := by
  unfold loose at h
  cases hpc : call.pc <;> simp_all [CoreCmdPc.req]

theorem Result.goto {answers : Nat → Option FrcCmdRespond} {rv : CoreCmdRv}
    (h : call.Result answers rv) (pc : CoreCmdPc) :
    ({ call with pc } : CoreCmdCall).Result answers rv := by
  cases rv with
  | own fre => exact h
  | card ret =>
      obtain ⟨respond, hanswer, hgot⟩ := h
      exact ⟨respond, hanswer, hgot.seq, hgot.value, hgot.untouched, hgot.len,
        hgot.data⟩

theorem loose_of_added (h : call.added = some req) : call.loose = none := by
  unfold added at h
  unfold loose
  cases hpc : call.pc <;> simp_all

theorem stray_of_added (h : call.added = some req) : call.stray = false := by
  unfold added at h
  unfold stray
  cases hpc : call.pc <;> simp_all

/-- A call is not disturbed by what happens to other requests and waiting ones,
nor by more answers. -/
theorem Ok.mono {reqs reqs' : Nat → CoreReq}
    {answers answers' : Nat → Option FrcCmdRespond} (h : call.Ok reqs answers)
    (hreqs : ∀ req, call.added = some req → (reqs req).state = .respond →
      reqs' req = reqs req)
    (hanswers : ∀ n respond, answers n = some respond →
      answers' n = some respond) : call.Ok reqs' answers' := by
  have hresult : ∀ {rv}, call.Result answers rv → call.Result answers' rv := by
    intro rv hresult
    cases rv with
    | own fre => exact hresult
    | card ret =>
        obtain ⟨respond, hanswer, hgot⟩ := hresult
        exact ⟨respond, hanswers _ _ hanswer, hgot⟩
  unfold Ok at h ⊢
  unfold added at hreqs
  cases hpc : call.pc with
  | entry => simpa only [hpc] using h
  | mallocReq => simpa only [hpc] using h
  | mallocPkt => simpa only [hpc] using h
  | add => simpa only [hpc] using h
  | send => simpa only [hpc] using h
  | wait => simpa only [hpc] using h
  | check req =>
      simp only [hpc] at h hreqs ⊢
      rw [hreqs req rfl h.2]
      exact h
  | take req =>
      simp only [hpc] at h hreqs ⊢
      rw [hreqs req rfl h.2]
      exact h
  | copy req rv =>
      simp only [hpc] at h hreqs ⊢
      rw [hreqs req rfl h.2.1]
      exact h
  | remove =>
      simp only [hpc] at h ⊢
      exact hresult h
  | free =>
      simp only [hpc] at h ⊢
      exact hresult h
  | ret =>
      simp only [hpc] at h ⊢
      exact hresult h

end CoreCmdCall

/-- The list has the requests that calls have added, and a request that is not
in it has no links. -/
structure CoreCmdLists {C : Type} (links : CircList.Links CoreReqNode)
    (listed : List Nat) (calls : C → CoreCmdCall) : Prop where
  list : CircList.Cycle links .head (listed.map .req)
  listed : ∀ req, req ∈ listed ↔ ∃ c, (calls c).added = some req
  distinct : ∀ c d req, (calls c).pc.req = some req →
    (calls d).pc.req = some req → c = d
  loose : ∀ c req, (calls c).loose = some req → links.next (.req req) = none

/-- The requests have numbers from 1 to `made`. -/
structure CoreCmdNumbers {C : Type} (made : Nat) (number : C → Nat) : Prop where
  le : ∀ c, number c ≤ made
  unique : ∀ c d, number c = number d → number c ≠ 0 → c = d

theorem CoreCmdNumbers.add {C : Type} [DecidableEq C] {made : Nat}
    {number : C → Nat} (h : CoreCmdNumbers made number) (c : C) :
    CoreCmdNumbers (made + 1) (Function.update number c (made + 1)) where
  le := (Function.forall_update_iff number (p := fun _ n => n ≤ made + 1)).mpr
    ⟨Nat.le_refl _, fun d _ => Nat.le_succ_of_le (h.le d)⟩
  unique := by
    have hlast : ∀ d, number d ≠ made + 1 := fun d =>
      Nat.ne_of_lt (Nat.lt_succ_of_le (h.le d))
    intro d e heq hne
    by_cases hd : d = c
    · by_cases he : e = c
      · exact hd.trans he.symm
      · subst hd
        rw [Function.update_self, Function.update_of_ne he] at heq
        exact absurd heq.symm (hlast e)
    · by_cases he : e = c
      · subst he
        rw [Function.update_self, Function.update_of_ne hd] at heq
        exact absurd heq (hlast d)
      · rw [Function.update_of_ne hd, Function.update_of_ne he] at heq
        rw [Function.update_of_ne hd] at hne
        exact h.unique d e heq hne

theorem node_not_mem {listed : List Nat} {req : Nat} (hnew : req ∉ listed) :
    CoreReqNode.req req ∉ .head :: listed.map .req := by
  intro hmem
  rcases List.mem_cons.mp hmem with hhead | hmem
  · nomatch hhead
  · obtain ⟨other, hother, heq⟩ := List.mem_map.mp hmem
    cases heq
    exact hnew hother

namespace CoreCmdLists

variable {C : Type} {links : CircList.Links CoreReqNode} {listed : List Nat}
  {calls : C → CoreCmdCall} {c d : C} {req other : Nat} {call : CoreCmdCall}

/-- A request that belongs to one call does not belong to another. -/
theorem ne_of_other (h : CoreCmdLists links listed calls) (hd : d ≠ c)
    (hc : (calls c).pc.req = some req)
    (hother : (calls d).pc.req = some other) : other ≠ req := by
  rintro rfl
  exact hd (h.distinct d c other hother hc)

/-- A request that a call is about to add is not in the list. -/
theorem not_listed (h : CoreCmdLists links listed calls)
    (hloose : (calls c).loose = some req) : req ∉ listed := by
  intro hmem
  obtain ⟨d, hadded⟩ := (h.listed req).mp hmem
  obtain rfl := h.distinct c d req (CoreCmdCall.req_of_loose hloose)
    (CoreCmdCall.req_of_added hadded)
  rw [CoreCmdCall.loose_of_added hadded] at hloose
  nomatch hloose

/-- Memory that no call has as its request may change. -/
theorem memory (h : CoreCmdLists links listed calls)
    {links' : CircList.Links CoreReqNode}
    (hfree : ∀ d, (calls d).pc.req ≠ some req)
    (hlinks : ∀ node, node ≠ .req req → links'.next node = links.next node ∧
      links'.prev node = links.prev node) :
    CoreCmdLists links' listed calls := by
  have hnode : ∀ node ∈ CoreReqNode.head :: listed.map .req,
      node ≠ .req req := by
    refine fun node hmem => ne_of_mem_of_not_mem hmem (node_not_mem ?_)
    intro hlisted
    obtain ⟨d, hd⟩ := (h.listed req).mp hlisted
    exact hfree d (CoreCmdCall.req_of_added hd)
  refine ⟨h.list.congr (fun node hmem => (hlinks node (hnode node hmem)).1)
    (fun node hmem => (hlinks node (hnode node hmem)).2), h.listed, h.distinct,
    ?_⟩
  intro d other hd
  have hother : CoreReqNode.req other ≠ .req req := by
    rintro heq
    cases heq
    exact hfree d (CoreCmdCall.req_of_loose hd)
  exact (hlinks _ hother).1.trans (h.loose d other hd)

variable [DecidableEq C]

theorem distinct_update (h : CoreCmdLists links listed calls)
    (hreq : ∀ req, call.pc.req = some req →
      (calls c).pc.req = some req ∨ ∀ d, (calls d).pc.req ≠ some req) :
    ∀ d e req, (Function.update calls c call d).pc.req = some req →
      (Function.update calls c call e).pc.req = some req → d = e := by
  intro d e req hd he
  by_cases hdc : d = c
  · by_cases hec : e = c
    · exact hdc.trans hec.symm
    · subst hdc
      rw [Function.update_self] at hd
      rw [Function.update_of_ne hec] at he
      rcases hreq req hd with hold | hnone
      · exact h.distinct d e req hold he
      · exact absurd he (hnone e)
  · rw [Function.update_of_ne hdc] at hd
    by_cases hec : e = c
    · subst hec
      rw [Function.update_self] at he
      rcases hreq req he with hold | hnone
      · exact h.distinct d e req hd hold
      · exact absurd hd (hnone d)
    · rw [Function.update_of_ne hec] at he
      exact h.distinct d e req hd he

theorem update (h : CoreCmdLists links listed calls)
    (hadded : call.added = (calls c).added)
    (hloose : ∀ req, call.loose = some req → links.next (.req req) = none)
    (hreq : ∀ req, call.pc.req = some req →
      (calls c).pc.req = some req ∨ ∀ d, (calls d).pc.req ≠ some req) :
    CoreCmdLists links listed (Function.update calls c call) where
  list := h.list
  listed := by
    have hsame : ∀ d, (Function.update calls c call d).added =
        (calls d).added :=
      (Function.forall_update_iff calls
        (p := fun d call => call.added = (calls d).added)).mpr
          ⟨hadded, fun _ _ => rfl⟩
    simp only [hsame]
    exact h.listed
  distinct := h.distinct_update hreq
  loose := (Function.forall_update_iff calls
    (p := fun _ call => ∀ req, call.loose = some req →
      links.next (.req req) = none)).mpr ⟨hloose, fun d _ => h.loose d⟩

/-- A call adds its request. -/
theorem add (h : CoreCmdLists links listed calls)
    (hold : (calls c).loose = some req) (hadded : call.added = some req) :
    ∃ links', links.addTail (.req req) .head = some links' ∧
      CoreCmdLists links' (listed ++ [req]) (Function.update calls c call) := by
  have hreq := CoreCmdCall.req_of_loose hold
  have hnew := h.not_listed hold
  have hnone : (calls c).added ≠ some req := fun hc =>
    hnew ((h.listed req).mpr ⟨c, hc⟩)
  obtain ⟨links', hlinks, hcycle, hframe⟩ := h.list.addTail (node_not_mem hnew)
  refine ⟨links', hlinks, ?_, ?_, ?_, ?_⟩
  · rw [List.map_append]
    exact hcycle
  · intro other
    rw [List.mem_append, List.mem_singleton, h.listed,
      Function.exists_update_iff calls
        (p := fun _ call => call.added = some other), hadded]
    constructor
    · rintro (⟨d, hd⟩ | rfl)
      · by_cases hdc : d = c
        · subst hdc
          rw [CoreCmdCall.loose_of_added hd] at hold
          nomatch hold
        · exact .inr ⟨d, hdc, hd⟩
      · exact .inl rfl
    · rintro (heq | ⟨d, _, hd⟩)
      · exact .inr (Option.some.inj heq).symm
      · exact .inl ⟨d, hd⟩
  · refine h.distinct_update fun other hother => .inl ?_
    rw [CoreCmdCall.req_of_added hadded] at hother
    rw [hreq, hother]
  · refine (Function.forall_update_iff calls
      (p := fun _ call => ∀ req, call.loose = some req →
        links'.next (.req req) = none)).mpr ⟨?_, ?_⟩
    · intro other hother
      rw [CoreCmdCall.loose_of_added hadded] at hother
      nomatch hother
    · intro d hdc other hd
      have hne : CoreReqNode.req other ≠ .req req := by
        intro heq
        cases heq
        exact h.ne_of_other hdc hreq (CoreCmdCall.req_of_loose hd) rfl
      exact (hframe _ (node_not_mem (h.not_listed hd)) hne).trans
        (h.loose d other hd)

/-- A call takes its request out of the list. -/
theorem remove (h : CoreCmdLists links listed calls)
    (hold : (calls c).added = some req) (hadded : call.added = none)
    (hloose : call.loose = none) (hreq : call.pc.req = some req) :
    ∃ links', links.del (.req req) = some links' ∧
      CoreCmdLists links' (listed.erase req) (Function.update calls c call) := by
  have hnodup : listed.Nodup := (List.nodup_cons.mp h.list.nodup).2.of_map _
  obtain ⟨before, after, hsplit⟩ :=
    List.append_of_mem ((h.listed req).mpr ⟨c, hold⟩)
  have hbefore : req ∉ before := by
    rw [hsplit] at hnodup
    exact fun hmem => List.disjoint_of_nodup_append hnodup hmem
      List.mem_cons_self
  have hcycle := h.list
  rw [hsplit, List.map_append, List.map_cons] at hcycle
  obtain ⟨links', hlinks, hdel, hframe⟩ := hcycle.del
  refine ⟨links', hlinks, ?_, ?_, ?_, ?_⟩
  · rw [hsplit, List.erase_append_right _ hbefore, List.erase_cons_head,
      List.map_append]
    exact hdel
  · intro other
    rw [hnodup.mem_erase_iff, h.listed,
      Function.exists_update_iff calls
        (p := fun _ call => call.added = some other), hadded]
    constructor
    · rintro ⟨hother, d, hd⟩
      refine .inr ⟨d, ?_, hd⟩
      rintro rfl
      rw [hold] at hd
      exact hother (Option.some.inj hd).symm
    · rintro (hnone | ⟨d, hdc, hd⟩)
      · nomatch hnone
      · exact ⟨h.ne_of_other hdc (CoreCmdCall.req_of_added hold)
          (CoreCmdCall.req_of_added hd), d, hd⟩
  · refine h.distinct_update fun other hother => .inl ?_
    rw [CoreCmdCall.req_of_added hold, ← hreq, hother]
  · refine (Function.forall_update_iff calls
      (p := fun _ call => ∀ req, call.loose = some req →
        links'.next (.req req) = none)).mpr ⟨?_, ?_⟩
    · intro other hother
      rw [hloose] at hother
      nomatch hother
    · intro d _ other hd
      refine (hframe _ (node_not_mem fun hmem => ?_)).trans (h.loose d other hd)
      apply h.not_listed hd
      rw [hsplit]
      exact List.mem_append_left _ hmem

end CoreCmdLists

end Barley
