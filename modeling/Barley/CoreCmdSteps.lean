/-
The steps of the calls, of the card and of the messages, one after the other:
what holds of the list, the numbers of the requests and the responses is kept,
unless a call takes out a request that it has not added.
-/
import Barley.CoreCmdCalls

namespace Barley

/-- What every step keeps as long as nothing has crashed. -/
structure CoreCmdInv {C : Type} (s : CoreCmdState C) : Prop where
  lists : CoreCmdLists s.links s.listed s.calls
  numbers : CoreCmdNumbers s.made fun c => (s.calls c).number
  fails : 0 < s.pktFails ↔ ∃ c, (s.calls c).stray = true
  seq : s.seq = BitVec.ofNat 32 s.made
  wire : ∀ n ∈ s.wire, n ≤ s.made ∧
    (s.commands n).seq = BitVec.ofNat 32 n
  answers : ∀ n respond, s.answers n = some respond →
    respond.seq = BitVec.ofNat 32 n
  request : ∀ c req, (s.calls c).added = some req →
    (s.reqs req).seq = BitVec.ofNat 32 (s.calls c).number ∧
      ((s.reqs req).state = .respond →
        s.answers (s.calls c).number = some (s.reqs req).respond)
  ok : ∀ c, (s.calls c).Ok s.reqs s.answers

theorem CoreCmdInv.init {C : Type} (args : C → CoreCmdArgs)
    (links : CircList.Links CoreReqNode) (reqs : Nat → CoreReq) :
    CoreCmdInv (CoreCmdState.init args links reqs) where
  lists :=
    { list := CircList.cycle_init
      listed := fun _ => iff_of_false List.not_mem_nil
        fun ⟨_, hadded⟩ => nomatch hadded
      distinct := fun _ _ _ hreq => nomatch hreq
      loose := fun _ _ hloose => nomatch hloose }
  numbers := ⟨fun _ => Nat.le_refl 0, fun _ _ _ hne => absurd rfl hne⟩
  fails := iff_of_false (Nat.lt_irrefl 0) fun ⟨_, hstray⟩ => nomatch hstray
  seq := rfl
  wire := fun _ hmem => absurd hmem List.not_mem_nil
  answers := fun _ _ hanswer => nomatch hanswer
  request := fun _ _ hadded => nomatch hadded
  ok := fun _ => ⟨rfl, rfl, rfl⟩

section Steps

variable {C : Type} {s : CoreCmdState C} {c d : C} {call : CoreCmdCall}
  {req : Nat}

namespace CoreCmdInv

/-- Memory that no call has as its request may change. -/
theorem memory (h : CoreCmdInv s) {links : CircList.Links CoreReqNode}
    {reqs : Nat → CoreReq} (hfree : ∀ d, (s.calls d).pc.req ≠ some req)
    (hlinks : ∀ node, node ≠ .req req → links.next node = s.links.next node ∧
      links.prev node = s.links.prev node)
    (hreqs : ∀ other, other ≠ req → reqs other = s.reqs other) :
    CoreCmdInv { s with links, reqs } := by
  have hsame : ∀ {d other}, (s.calls d).added = some other →
      reqs other = s.reqs other := by
    intro d other hd
    apply hreqs
    rintro rfl
    exact hfree d (CoreCmdCall.req_of_added hd)
  refine ⟨h.lists.memory hfree hlinks, h.numbers, h.fails, h.seq, h.wire,
    h.answers, ?_, ?_⟩
  · intro d other hd
    show (reqs other).seq = _ ∧ ((reqs other).state = _ → _ = some
      (reqs other).respond)
    rw [hsame hd]
    exact h.request d other hd
  · exact fun d => (h.ok d).mono (fun other hd _ => hsame hd) fun _ _ => id

theorem lose (h : CoreCmdInv s) {wire : List Nat} (hsub : wire ⊆ s.wire) :
    CoreCmdInv { s with wire } :=
  ⟨h.lists, h.numbers, h.fails, h.seq, fun n hn => h.wire n (hsub hn),
    h.answers, h.request, h.ok⟩

theorem answer (h : CoreCmdInv s) {n : Nat} (cmdset : Nat → FrcoreCmdSet)
    (hwire : n ∈ s.wire) (hnew : s.answers n = none) :
    CoreCmdInv (s.answer n cmdset) := by
  have hmore : ∀ m respond, s.answers m = some respond →
      (s.answer n cmdset).answers m = some respond := by
    intro m respond hanswer
    have hne : m ≠ n := by
      rintro rfl
      rw [hnew] at hanswer
      nomatch hanswer
    exact (Function.update_of_ne hne ..).trans hanswer
  refine ⟨h.lists, h.numbers, h.fails, h.seq, h.wire, ?_, ?_, ?_⟩
  · intro m respond hanswer
    by_cases hm : m = n
    · subst hm
      simp only [CoreCmdState.answer, Function.update_self,
        Option.some.injEq] at hanswer
      rw [← hanswer, frcoreProcessFrcCmd_seq]
      exact (h.wire m hwire).2
    · exact h.answers m respond
        ((Function.update_of_ne hm ..).symm.trans hanswer)
  · intro d req hd
    exact ⟨(h.request d req hd).1,
      fun hstate => hmore _ _ ((h.request d req hd).2 hstate)⟩
  · exact fun d => (h.ok d).mono (fun _ _ _ => rfl) hmore

/-- The response that a call finds in its request is the answer to its
command. -/
theorem respond_eq (h : CoreCmdInv s) (hadded : (s.calls c).added = some req)
    (hsent : (s.calls c).Sent) (hstate : (s.reqs req).state = .respond) :
    s.answers (s.calls c).number = some (s.reqs req).respond ∧
      (s.reqs req).respond.seq = (s.calls c).pkt.seq := by
  have hanswer := (h.request c req hadded).2 hstate
  exact ⟨hanswer, (h.answers _ _ hanswer).trans hsent.2.2.symm⟩

/-- A response to `n` finds the request of the call with this number. -/
theorem number_eq (h : CoreCmdInv s) (hfew : s.Few) {n : Nat}
    {respond : FrcCmdRespond} (hwire : n ∈ s.wire)
    (hanswer : s.answers n = some respond)
    (hadded : (s.calls c).added = some req)
    (hseq : (s.reqs req).seq = respond.seq) : (s.calls c).number = n := by
  rw [(h.request c req hadded).1, h.answers n respond hanswer] at hseq
  exact seq_inj (h.numbers.le c) (h.wire n hwire).1
    (hfew _ (.inr ⟨c, req, hadded, rfl⟩)) (hfew n (.inl hwire)) hseq

theorem deliver (h : CoreCmdInv s) (hfew : s.Few) {n : Nat}
    {respond : FrcCmdRespond} (hwire : n ∈ s.wire)
    (hanswer : s.answers n = some respond) :
    CoreCmdInv (s.deliver respond (some (s.listed.map .req))) := by
  have happly := frcdrvCoreReqRespond_apply respond
    (s.listed.map .req) s.reqs
  have hfound : ∀ {c req}, (s.calls c).added = some req →
      (s.reqs req).seq = respond.seq →
      s.answers (s.calls c).number = some respond := by
    intro c req hadded hseq
    rw [h.number_eq hfew hwire hanswer hadded hseq]
    exact hanswer
  refine ⟨h.lists, h.numbers, h.fails, h.seq, h.wire, h.answers, ?_, ?_⟩
  · intro c req hadded
    obtain ⟨hseq, hstate⟩ := h.request c req hadded
    simp only [CoreCmdState.deliver, happly]
    split
    case isTrue hmatch => exact ⟨hseq, fun _ => hfound hadded hmatch.2⟩
    case isFalse => exact ⟨hseq, hstate⟩
  · intro c
    refine (h.ok c).mono ?_ fun _ _ => id
    intro req hadded hstate
    simp only [CoreCmdState.deliver, happly]
    split
    case isTrue hmatch =>
      have hsame := hfound hadded hmatch.2
      rw [(h.request c req hadded).2 hstate] at hsame
      rw [← Option.some.inj hsame, ← hstate]
    case isFalse => rfl

variable [DecidableEq C]

/-- What a call keeps is the same for all calls as before. -/
theorem call_update {A : Type} (field : CoreCmdCall → A)
    (h : field call = field (s.calls c)) (d : C) :
    field (Function.update s.calls c call d) = field (s.calls d) :=
  (Function.forall_update_iff s.calls
    (p := fun d call => field call = field (s.calls d))).mpr
      ⟨h, fun _ _ => rfl⟩ d

/-- A call that keeps the request it has added, and its number, may do what is
right for itself. -/
theorem setCall (h : CoreCmdInv s) {fails : Nat}
    (hadded : call.added = (s.calls c).added)
    (hloose : ∀ req, call.loose = some req → s.links.next (.req req) = none)
    (hstray : call.stray = (s.calls c).stray ∧ fails = s.pktFails ∨
      call.stray = true ∧ 0 < fails)
    (hreq : ∀ req, call.pc.req = some req →
      (s.calls c).pc.req = some req ∨ ∀ d, (s.calls d).pc.req ≠ some req)
    (hnumber : call.number = (s.calls c).number)
    (hok : call.Ok s.reqs s.answers) :
    CoreCmdInv { s.setCall c call with pktFails := fails } where
  lists := h.lists.update hadded hloose hreq
  numbers := by
    have hsame := funext (call_update CoreCmdCall.number hnumber)
    exact hsame ▸ h.numbers
  fails := by
    rcases hstray with ⟨hstray, rfl⟩ | ⟨hstray, hfails⟩
    · have heach := call_update CoreCmdCall.stray hstray
      simp only [CoreCmdState.setCall, heach]
      exact h.fails
    · refine iff_of_true hfails ⟨c, ?_⟩
      simp only [CoreCmdState.setCall, Function.update_self]
      exact hstray
  seq := h.seq
  wire := h.wire
  answers := h.answers
  request := (Function.forall_update_iff s.calls
    (p := fun _ call => ∀ req, call.added = some req →
      (s.reqs req).seq = BitVec.ofNat 32 call.number ∧
        ((s.reqs req).state = .respond →
          s.answers call.number = some (s.reqs req).respond))).mpr
    ⟨by
      rw [hadded, hnumber]
      exact h.request c, fun d _ => h.request d⟩
  ok := (Function.forall_update_iff s.calls
    (p := fun _ call => call.Ok s.reqs s.answers)).mpr
    ⟨hok, fun d _ => h.ok d⟩

/-- A step of a call by which it neither gets a request nor adds it. -/
theorem local_step (h : CoreCmdInv s)
    (hadded : call.added = (s.calls c).added)
    (hloose : ∀ req, call.loose = some req → (s.calls c).loose = some req)
    (hstray : call.stray = (s.calls c).stray)
    (hreq : ∀ req, call.pc.req = some req → (s.calls c).pc.req = some req)
    (hnumber : call.number = (s.calls c).number)
    (hok : call.Ok s.reqs s.answers) : CoreCmdInv (s.setCall c call) :=
  h.setCall hadded (fun req hreq => h.lists.loose c req (hloose req hreq))
    (.inl ⟨hstray, rfl⟩) (fun req hcall => .inl (hreq req hcall)) hnumber hok

theorem mallocReq (h : CoreCmdInv s) {got : Option Nat}
    (hpc : (s.calls c).pc = .mallocReq)
    (hfree : ∀ req, got = some req → ∀ d, (s.calls d).pc.req ≠ some req) :
    CoreCmdInv (s.mallocReq c got) := by
  have hok := h.ok c
  simp only [CoreCmdCall.Ok, hpc] at hok
  cases got with
  | none =>
      apply h.local_step
      · simp [CoreCmdCall.added, hpc]
      · simp [CoreCmdCall.loose]
      · simp [CoreCmdCall.stray, hpc]
      · simp [CoreCmdPc.req]
      · rfl
      · exact hok.2
  | some req =>
      have hmemory : CoreCmdInv
          { s with
            links :=
              { next := Function.update s.links.next (.req req) none
                prev := Function.update s.links.prev (.req req) none }
            reqs := Function.update s.reqs req .zero } :=
        h.memory (hfree req rfl)
          (fun node hne => ⟨Function.update_of_ne hne ..,
            Function.update_of_ne hne ..⟩)
          (fun other hne => Function.update_of_ne hne ..)
      have hadded : ({ s.calls c with pc := .mallocPkt req } :
          CoreCmdCall).added = (s.calls c).added := by
        simp [CoreCmdCall.added, hpc]
      refine hmemory.setCall hadded ?_ (.inl ⟨?_, rfl⟩) ?_ rfl hok
      · intro other hother
        simp only [CoreCmdCall.loose, Option.some.injEq] at hother
        subst hother
        exact Function.update_self ..
      · simp [CoreCmdCall.stray, hpc]
      · intro other hother
        simp only [CoreCmdPc.req, Option.some.injEq] at hother
        subst hother
        exact .inr (hfree req rfl)

theorem mallocPkt (h : CoreCmdInv s) (ok : Bool)
    (hpc : (s.calls c).pc = .mallocPkt req) :
    CoreCmdInv (s.mallocPkt c req ok) := by
  have hok := h.ok c
  simp only [CoreCmdCall.Ok, hpc] at hok
  have hloose : s.links.next (.req req) = none := by
    apply h.lists.loose c req
    simp [CoreCmdCall.loose, hpc]
  cases ok with
  | false =>
      apply h.setCall
      · simp [CoreCmdCall.added, hpc, hok.1]
      · intro other hother
        simp only [CoreCmdCall.loose, hok.1, if_true,
          Option.some.injEq] at hother
        exact hother ▸ hloose
      · right
        simp [CoreCmdCall.stray, hok.1]
      · intro other hother
        exact .inl (by simpa [CoreCmdPc.req, hpc] using hother)
      · rfl
      · exact hok.2
  | true =>
      apply h.local_step
      · simp [CoreCmdCall.added, hpc]
      · simp [CoreCmdCall.loose, hpc]
      · simp [CoreCmdCall.stray, hpc]
      · simp [CoreCmdPc.req, hpc]
      · rfl
      · exact hok

theorem enter (h : CoreCmdInv s) (hpc : (s.calls c).pc = .entry) :
    CoreCmdInv (s.setCall c (s.calls c).enter) := by
  have hok := h.ok c
  simp only [CoreCmdCall.Ok, hpc] at hok
  have hadded : (s.calls c).added = none := by simp [CoreCmdCall.added, hpc]
  have hstray : (s.calls c).stray = false := by simp [CoreCmdCall.stray, hpc]
  unfold CoreCmdCall.enter
  split
  · exact h.local_step hadded.symm (fun _ hnone => nomatch hnone) hstray.symm
      (fun _ hnone => nomatch hnone) rfl hok.2
  · dsimp only
    split
    · exact h.local_step hadded.symm (fun _ hnone => nomatch hnone) hstray.symm
        (fun _ hnone => nomatch hnone) rfl hok.2
    · exact h.local_step hadded.symm (fun _ hnone => nomatch hnone) hstray.symm
        (fun _ hnone => nomatch hnone) rfl hok

/-- A call whose request is in the list goes to another step before the request
is taken out. -/
theorem proceed (h : CoreCmdInv s)
    (hold : (s.calls c).added = some req) (hadded : call.added = some req)
    (hnumber : call.number = (s.calls c).number)
    (hok : call.Ok s.reqs s.answers) : CoreCmdInv (s.setCall c call) := by
  apply h.local_step (hadded.trans hold.symm)
  · intro other hloose
    rw [CoreCmdCall.loose_of_added hadded] at hloose
    nomatch hloose
  · rw [CoreCmdCall.stray_of_added hadded, CoreCmdCall.stray_of_added hold]
  · intro other hother
    rw [CoreCmdCall.req_of_added hadded] at hother
    rw [CoreCmdCall.req_of_added hold, hother]
  · exact hnumber
  · exact hok

theorem send (h : CoreCmdInv s) (ok : Bool)
    (hpc : (s.calls c).pc = .send req) : CoreCmdInv (s.send c req ok) := by
  have hok := h.ok c
  simp only [CoreCmdCall.Ok, hpc] at hok
  have hadded : (s.calls c).added = some req := by
    simp [CoreCmdCall.added, hpc]
  have hseq := (h.request c req hadded).1
  cases ok with
  | false =>
      apply h.proceed hadded
      · simp [CoreCmdCall.added, CoreCmdCall.pack, hok.1]
      · rfl
      · exact hok.2
  | true =>
      have hwire : CoreCmdInv
          { s with
            wire := (s.calls c).number :: s.wire
            commands := Function.update s.commands (s.calls c).number
              ((s.calls c).pack (s.reqs req).seq).pkt } := by
        refine ⟨h.lists, h.numbers, h.fails, h.seq, ?_, h.answers, h.request,
          h.ok⟩
        intro n hn
        by_cases hsame : n = (s.calls c).number
        · subst hsame
          simp only [Function.update_self]
          exact ⟨h.numbers.le c, hseq⟩
        · simp only [Function.update_of_ne hsame]
          rcases List.mem_cons.mp hn with heq | hmem
          · exact absurd heq hsame
          · exact h.wire n hmem
      exact hwire.proceed (c := c) hadded rfl rfl ⟨hok.1, hok.2, hseq⟩

theorem wait (h : CoreCmdInv s) {i : Nat}
    (hpc : (s.calls c).pc = .wait req i) :
    CoreCmdInv
      (s.setCall c ((s.calls c).wait req i (s.reqs req).state)) := by
  have hok := h.ok c
  simp only [CoreCmdCall.Ok, hpc] at hok
  have hadded : (s.calls c).added = some req := by
    simp [CoreCmdCall.added, hpc]
  unfold CoreCmdCall.wait
  split
  · apply h.proceed hadded
    · simp [CoreCmdCall.added, hok.1]
    · rfl
    · exact hok.2.1
  · split
    · exact h.proceed hadded rfl rfl ⟨hok, ‹_›⟩
    · exact h.proceed hadded rfl rfl hok

theorem check (h : CoreCmdInv s) (hpc : (s.calls c).pc = .check req) :
    CoreCmdInv
      (s.setCall c ((s.calls c).check req (s.reqs req).respond)) := by
  have hok := h.ok c
  simp only [CoreCmdCall.Ok, hpc] at hok
  have hadded : (s.calls c).added = some req := by
    simp [CoreCmdCall.added, hpc]
  unfold CoreCmdCall.check
  split
  · apply h.proceed hadded
    · simp [CoreCmdCall.added, hok.1.1]
    · rfl
    · exact hok.1.2.1
  · exact h.proceed hadded rfl rfl hok

theorem take (h : CoreCmdInv s) (hpc : (s.calls c).pc = .take req) :
    CoreCmdInv (s.setCall c ((s.calls c).take req (s.reqs req).respond)) := by
  have hok := h.ok c
  simp only [CoreCmdCall.Ok, hpc] at hok
  have hadded : (s.calls c).added = some req := by
    simp [CoreCmdCall.added, hpc]
  obtain ⟨hanswer, hseq⟩ := h.respond_eq hadded hok.1 hok.2
  obtain ⟨⟨hnumber, huntouched, hpkt⟩, hstate⟩ := hok
  unfold CoreCmdCall.take
  dsimp only
  split
  case isTrue hcopy =>
    obtain ⟨hret, holen, houtput⟩ := hcopy
    have hzero : (s.reqs req).respond.ret = 0 :=
      BitVec.eq_of_toNat_eq hret
    exact h.proceed hadded rfl rfl ⟨⟨hnumber, huntouched, hpkt⟩, hstate, rfl,
      hzero, holen, houtput⟩
  case isFalse hcopy =>
    apply h.proceed hadded
    · simp [CoreCmdCall.added, hnumber]
    · rfl
    · refine ⟨_, hanswer, hseq, rfl, fun _ => huntouched, ?_, ?_⟩
      · intro hzero holen houtput
        refine absurd ⟨congrArg BitVec.toNat hzero, ?_, ?_⟩ hcopy
        · rw [huntouched.1]
          exact holen
        · rw [huntouched.2]
          exact houtput
      · intro hzero holen before hbefore
        refine absurd ⟨congrArg BitVec.toNat hzero, ?_, ?_⟩ hcopy
        · rw [huntouched.1]
          exact holen
        · rw [huntouched.2, hbefore]
          rfl

theorem copy (h : CoreCmdInv s) {rv : CoreCmdRv} (beyond : Nat → UInt8)
    (hpc : (s.calls c).pc = .copy req rv) :
    CoreCmdInv
      (s.setCall c ((s.calls c).copy req rv (s.reqs req).respond beyond)) := by
  have hok := h.ok c
  simp only [CoreCmdCall.Ok, hpc] at hok
  have hadded : (s.calls c).added = some req := by
    simp [CoreCmdCall.added, hpc]
  obtain ⟨hsent, hstate, rfl, hzero, holen, houtput⟩ := hok
  obtain ⟨hanswer, hseq⟩ := h.respond_eq hadded hsent hstate
  obtain ⟨hnumber, ⟨holenEq, houtputEq⟩, hpkt⟩ := hsent
  rw [holenEq] at holen
  rw [houtputEq] at houtput
  apply h.proceed hadded
  · simp [CoreCmdCall.added, CoreCmdCall.copy, hnumber]
  · rfl
  · refine ⟨_, hanswer, hseq, rfl, ?_, fun _ _ _ => rfl, ?_⟩
    · rintro (hne | hnone | hnone)
      · exact absurd hzero hne
      · rw [show (s.calls c).args.olen = none from hnone] at holen
        nomatch holen
      · rw [show (s.calls c).args.output = none from hnone] at houtput
        nomatch houtput
    · intro _ _ before hbefore
      refine ⟨_, congrArg (Option.map _) (houtputEq.trans hbefore), ?_, ?_⟩
      · intro k hk hlen
        refine (if_pos hlen).trans ?_
        rw [List.getElem?_eq_getElem hk, Option.getD_some]
      · intro k hlen
        exact if_neg (Nat.not_lt.mpr hlen)

theorem free (h : CoreCmdInv s) {rv : CoreCmdRv}
    (hpc : (s.calls c).pc = .free req rv) :
    CoreCmdInv (s.goto c (.ret rv)) := by
  have hok := h.ok c
  simp only [CoreCmdCall.Ok, hpc] at hok
  apply h.local_step
  · simp [CoreCmdCall.added, hpc]
  · simp [CoreCmdCall.loose]
  · simp [CoreCmdCall.stray, hpc]
  · simp [CoreCmdPc.req]
  · rfl
  · exact CoreCmdCall.Result.goto hok _

/-- A call adds its request. -/
theorem add (h : CoreCmdInv s) (hpc : (s.calls c).pc = .add req) :
    (s.add c req).crashed = s.crashed ∧ CoreCmdInv (s.add c req) := by
  have hok := h.ok c
  simp only [CoreCmdCall.Ok, hpc] at hok
  have hloose : (s.calls c).loose = some req := by
    simp [CoreCmdCall.loose, hpc]
  have hne : ∀ {d other}, d ≠ c → (s.calls d).added = some other →
      other ≠ req := fun hdc hd => h.lists.ne_of_other hdc
    (CoreCmdCall.req_of_loose hloose) (CoreCmdCall.req_of_added hd)
  have hadded : ({ s.calls c with pc := .send req, number := s.made + 1 } :
      CoreCmdCall).added = some req := rfl
  have hnext : s.seq + 1 = BitVec.ofNat 32 (s.made + 1) := by
    rw [h.seq, BitVec.ofNat_add]
    rfl
  obtain ⟨links, hlinks, hlists⟩ := h.lists.add hloose hadded
  simp only [CoreCmdState.add, hlinks]
  refine ⟨rfl, hlists, ?_, ?_, hnext, ?_, h.answers, ?_, ?_⟩
  · have hsame : (fun d => (Function.update s.calls c
        { s.calls c with pc := .send req, number := s.made + 1 } d).number) =
          Function.update (fun d => (s.calls d).number) c (s.made + 1) :=
      Function.comp_update CoreCmdCall.number s.calls c _
    exact (congrArg (CoreCmdNumbers (s.made + 1)) hsame).mpr (h.numbers.add c)
  · have hstray : ({ s.calls c with pc := .send req, number := s.made + 1 } :
        CoreCmdCall).stray = (s.calls c).stray := by
      simp [CoreCmdCall.stray, hpc]
    have heach := call_update CoreCmdCall.stray hstray
    simp only [CoreCmdState.setCall, heach]
    exact h.fails
  · exact fun n hn => ⟨Nat.le_succ_of_le (h.wire n hn).1, (h.wire n hn).2⟩
  · intro d other hd
    by_cases hdc : d = c
    · subst hdc
      simp only [CoreCmdState.setCall, Function.update_self] at hd ⊢
      obtain rfl := Option.some.inj hd
      rw [Function.update_self]
      exact ⟨hnext, fun hstate => nomatch hstate⟩
    · simp only [CoreCmdState.setCall, Function.update_of_ne hdc] at hd ⊢
      rw [Function.update_of_ne (hne hdc hd)]
      exact h.request d other hd
  · intro d
    by_cases hdc : d = c
    · subst hdc
      simp only [CoreCmdState.setCall, Function.update_self]
      exact ⟨Nat.succ_ne_zero _, hok.2⟩
    · simp only [CoreCmdState.setCall, Function.update_of_ne hdc]
      exact (h.ok d).mono (fun other hd _ =>
        Function.update_of_ne (hne hdc hd) ..) fun _ _ => id

/-- A call takes the request that it has added out of the list. -/
theorem remove (h : CoreCmdInv s) {rv : CoreCmdRv}
    (hpc : (s.calls c).pc = .remove req rv)
    (hmade : (s.calls c).number ≠ 0) :
    (s.remove c req rv).crashed = s.crashed ∧
      CoreCmdInv (s.remove c req rv) := by
  have hok := h.ok c
  simp only [CoreCmdCall.Ok, hpc] at hok
  have hold : (s.calls c).added = some req := by
    simp [CoreCmdCall.added, hpc, hmade]
  have hadded : ({ s.calls c with pc := .free req rv } :
      CoreCmdCall).added = none := rfl
  obtain ⟨links, hlinks, hlists⟩ := h.lists.remove hold hadded rfl rfl
  simp only [CoreCmdState.remove, hlinks]
  refine ⟨rfl, hlists, ?_, ?_, h.seq, h.wire, h.answers, ?_, ?_⟩
  · have hsame : (fun d => (Function.update s.calls c
        { s.calls c with pc := .free req rv } d).number) = _ :=
      funext (call_update CoreCmdCall.number rfl)
    exact hsame ▸ h.numbers
  · have hstray : ({ s.calls c with pc := .free req rv } :
        CoreCmdCall).stray = (s.calls c).stray := by
      simp [CoreCmdCall.stray, hpc, hmade]
    have heach := call_update CoreCmdCall.stray hstray
    simp only [CoreCmdState.goto, CoreCmdState.setCall, heach]
    exact h.fails
  · refine (Function.forall_update_iff s.calls
      (p := fun _ call => ∀ other, call.added = some other →
        (s.reqs other).seq = BitVec.ofNat 32 call.number ∧
          ((s.reqs other).state = .respond →
            s.answers call.number = some (s.reqs other).respond))).mpr ⟨?_, ?_⟩
    · exact fun other hother => nomatch hother
    · exact fun d _ => h.request d
  · exact (Function.forall_update_iff s.calls
      (p := fun _ call => call.Ok s.reqs s.answers)).mpr
        ⟨CoreCmdCall.Result.goto hok _, fun d _ => h.ok d⟩

/-- A call that takes out a request that it has not added comes upon a null
link. -/
theorem remove_stray (h : CoreCmdInv s) {rv : CoreCmdRv}
    (hpc : (s.calls c).pc = .remove req rv) (hmade : (s.calls c).number = 0) :
    (s.remove c req rv).crashed = true ∧ 0 < (s.remove c req rv).pktFails := by
  have hloose : (s.calls c).loose = some req := by
    simp [CoreCmdCall.loose, hpc, hmade]
  have hdel : s.links.del (.req req) = none :=
    CircList.del_of_null (h.lists.loose c req hloose)
  simp only [CoreCmdState.remove, hdel]
  exact ⟨trivial, h.fails.mpr ⟨c, by simp [CoreCmdCall.stray, hpc, hmade]⟩⟩

theorem step {s' : CoreCmdState C} (h : CoreCmdInv s) (hfew : s.Few)
    (hrun : s.crashed = false) (hstep : CoreCmdStep s s') :
    s'.crashed = false ∧ CoreCmdInv s' ∨
      s'.crashed = true ∧ 0 < s'.pktFails := by
  cases hstep with
  | enter hpc => exact .inl ⟨hrun, h.enter hpc⟩
  | mallocReq got hpc hfree =>
      refine .inl ⟨?_, h.mallocReq hpc hfree⟩
      cases got with
      | none => exact hrun
      | some req => exact hrun
  | mallocPkt ok hpc =>
      refine .inl ⟨?_, h.mallocPkt ok hpc⟩
      cases ok with
      | false => exact hrun
      | true => exact hrun
  | add hpc =>
      obtain ⟨hsame, hinv⟩ := h.add hpc
      exact .inl ⟨hsame.trans hrun, hinv⟩
  | send ok hpc =>
      refine .inl ⟨?_, h.send ok hpc⟩
      cases ok with
      | false => exact hrun
      | true => exact hrun
  | wait hpc => exact .inl ⟨hrun, h.wait hpc⟩
  | check hpc => exact .inl ⟨hrun, h.check hpc⟩
  | take hpc => exact .inl ⟨hrun, h.take hpc⟩
  | copy beyond hpc => exact .inl ⟨hrun, h.copy beyond hpc⟩
  | @remove c req rv hpc =>
      by_cases hmade : (s.calls c).number = 0
      · exact .inr (h.remove_stray hpc hmade)
      · obtain ⟨hsame, hinv⟩ := h.remove hpc hmade
        exact .inl ⟨hsame.trans hrun, hinv⟩
  | free hpc => exact .inl ⟨hrun, h.free hpc⟩
  | answer cmdset hwire hnew => exact .inl ⟨hrun, h.answer cmdset hwire hnew⟩
  | deliver hwire hanswer hwalk =>
      rw [h.lists.list.walk_unique hwalk]
      exact .inl ⟨hrun, h.deliver hfew hwire hanswer⟩
  | lose hsub => exact .inl ⟨hrun, h.lose hsub⟩

end CoreCmdInv

end Steps

end Barley
