/-
Which calls keep `rcv_nxt` at the end of the gap-free run, one after the other
and over whole runs.
-/
import Barley.TcpRunPlaced

namespace Barley

section Syn

variable {window : SeqWindow} {disorderDepth : Nat} {flowData : TcpFlowData}
  {pkt : TcpPacket} {front back : List TsegQent} {sequence dataLength : Nat}
  {data : Nat → UInt8}

/-- A `SYN` breaks the run only by what it cuts away. -/
theorem Placement.breaks_syn
    (hplace : Placement flowData.head pkt front back sequence data dataLength)
    (hbreaks : flowData.Breaks disorderDepth pkt)
    (hsyn : pkt.has thSyn = true) :
    (∃ first rest, flowData.head = first :: rest ∧ pkt.sequence < first.seq ∧
        pkt.spares flowData.head ≠ [] ∧ flowData.rcvNxt ≤ pkt.stop) ∨
      (∃ p ∈ flowData.head, p.seq ≤ pkt.sequence) ∧ ∃ q ∈ flowData.head,
        pkt.sequence < q.seq ∧ q.seq < flowData.rcvNxt ∧ q.seq < pkt.stop := by
  cases hbreaks with
  | before _ hnot => exact absurd (hnot.symm.trans hsyn) Bool.false_ne_true
  | across hnot => exact absurd (hnot.symm.trans hsyn) Bool.false_ne_true
  | replace _ hdisplaces =>
      obtain ⟨q, hq, _, hbefore, hover, hequal, _⟩ := hdisplaces
      exact absurd ⟨q, hq, hbefore, hover, hequal⟩ hplace.not_displaces
  | synBefore hhead _ hstart hspares hstop =>
      exact .inl ⟨_, _, hhead, hstart, hspares, hstop⟩
  | synInside _ _ hstart hcuts => exact .inr ⟨hstart, hcuts⟩

/-- A `SYN` before the first entry leaves the end of the run unless it cuts the
whole run away. -/
theorem Placement.syn_front_endsAt_iff {first g : TsegQent}
    {rest others : List TsegQent}
    (hplace : Placement flowData.head pkt [] back sequence data dataLength)
    (hhead : flowData.head = first :: rest)
    (hcut : cutBefore pkt.stop back = g :: others)
    (hsound : flowData.Sound window disorderDepth)
    (hadmits : window.Admits pkt)
    (hrun : Segments.EndsAt TsegQent.seq TsegQent.stop flowData.head first.seq
      flowData.rcvNxt) :
    Segments.EndsAt TsegQent.seq TsegQent.stop (cutBefore pkt.stop back) g.seq
        flowData.rcvNxt ↔ pkt.stop < flowData.rcvNxt := by
  have hsplit : flowData.head = back := hplace.split
  have hqueue := hsound.queue
  have hproper := hsound.proper
  have hmem : first ∈ flowData.head := hhead ▸ List.mem_cons_self
  have hlast := hrun.first_lt hmem (hproper first hmem)
  have hlo : window.lo ≤ pkt.stop :=
    Nat.le_trans hadmits.lo (Nat.le_add_right _ _)
  rw [hsplit] at hqueue hproper
  have hheld : ∀ x, Held (cutBefore pkt.stop back) x ↔
      Held flowData.head x ∧ pkt.stop ≤ x := by
    intro x
    rw [hsplit]
    exact held_cutBefore hqueue.ordered
  obtain ⟨hcutQueue, hcutSeq⟩ := cutBefore_queue hlo hqueue
  have hg : g ∈ cutBefore pkt.stop back := hcut ▸ List.mem_cons_self
  have hgSeq := hcutSeq g hg
  have hgHeld : Held (cutBefore pkt.stop back) g.seq :=
    ⟨g, hg, Nat.le_refl _, cutBefore_proper pkt.stop hproper g hg⟩
  have hfirst : first.seq ≤ g.seq := by
    obtain ⟨q, hq, hle, -⟩ := ((hheld g.seq).mp hgHeld).1
    rw [hhead] at hq
    rw [← hsplit, hhead] at hqueue
    exact Nat.le_trans (hqueue.first_le q hq) hle
  constructor
  · intro hend
    refine Nat.lt_of_le_of_ne (Nat.le_trans hgSeq hend.le) fun heq => ?_
    have hsame : g.seq = flowData.rcvNxt :=
      Nat.le_antisymm hend.le (heq ▸ hgSeq)
    exact hend.free (hsame ▸ hgHeld)
  · intro hlt
    refine ⟨?_, fun x hx hxlt => (hheld x).mpr ⟨hrun.covered x (by omega) hxlt,
      by omega⟩, fun hcovers => hrun.free ((hheld _).mp hcovers).1⟩
    have hpoint : max pkt.stop first.seq < flowData.rcvNxt := by omega
    obtain ⟨q, hq, hle, -⟩ := (hheld (max pkt.stop first.seq)).mpr
      ⟨hrun.covered _ (by omega) hpoint, by omega⟩
    rw [hcut] at hq hcutQueue
    have hleast := hcutQueue.first_le q hq
    omega

/-- A `SYN` behind an entry leaves the end of the run unless it cuts into a
later entry of the run. -/
theorem Placement.syn_behind_endsAt_iff {first : TsegQent}
    {others : List TsegQent}
    (hplace : Placement flowData.head pkt (first :: others) back sequence data
      dataLength)
    (hqueue : window.Queue flowData.head)
    (hrun : Segments.EndsAt TsegQent.seq TsegQent.stop flowData.head first.seq
      flowData.rcvNxt) :
    Segments.EndsAt TsegQent.seq TsegQent.stop
        (first :: others ++ cutBefore pkt.stop back) first.seq
        flowData.rcvNxt ↔
      ¬ ∃ q ∈ flowData.head, pkt.sequence < q.seq ∧
        q.seq < flowData.rcvNxt ∧ q.seq < pkt.stop := by
  have hheld := hplace.held_cut hqueue
  have hall := hplace.held_queue
  have hordered := hqueue.ordered
  rw [hplace.split] at hordered
  have hacross := (List.pairwise_append.mp hordered).2.2
  have hfirst := hplace.before first List.mem_cons_self
  constructor
  · rintro hend ⟨q, hq, hafter, hbelow, hcut⟩
    have hback := hplace.mem_back hq hafter
    rcases (hheld q.seq).mp (hend.covered q.seq (by omega) hbelow) with
      ⟨p, hp, -, hover⟩ | ⟨-, hle⟩
    · have hstop := hacross p hp q hback
      omega
    · omega
  · intro hnot
    refine ⟨hrun.le, fun x hx hlt => (hheld x).mpr ?_, fun hcovers => ?_⟩
    · rcases (hall x).mp (hrun.covered x hx hlt) with hfront |
        ⟨q, hq, hle, hover⟩
      · exact .inl hfront
      · refine .inr ⟨⟨q, hq, hle, hover⟩, Nat.not_lt.mp fun hcut => hnot ?_⟩
        refine ⟨q, ?_, hplace.after q hq, by omega, by omega⟩
        rw [hplace.split]
        exact List.mem_append_right _ hq
    · refine hrun.free ((hall _).mpr ?_)
      rcases (hheld _).mp hcovers with hfront | ⟨hback, -⟩
      · exact .inl hfront
      · exact .inr hback

/-- A `SYN` before the first entry, with something left behind it. -/
theorem Placement.syn_front_iff {first : TsegQent} {rest : List TsegQent}
    (hplace : Placement flowData.head pkt [] back sequence data dataLength)
    (hhead : flowData.head = first :: rest)
    (hsound : flowData.Sound window disorderDepth)
    (hadmits : window.Admits pkt) (hsyn : pkt.has thSyn = true)
    (hspares : pkt.spares flowData.head ≠ [])
    (hsome : cutBefore pkt.stop back ≠ [])
    (hrun : Segments.EndsAt TsegQent.seq TsegQent.stop flowData.head first.seq
      flowData.rcvNxt) :
    (∀ q others, cutBefore pkt.stop back = q :: others →
        Segments.EndsAt TsegQent.seq TsegQent.stop (cutBefore pkt.stop back)
          q.seq flowData.rcvNxt) ↔
      ¬ flowData.Breaks disorderDepth pkt := by
  have hsplit : flowData.head = back := hplace.split
  have hfirst := hplace.after first
    (hsplit ▸ hhead ▸ List.mem_cons_self)
  obtain ⟨g, others, hcut⟩ := List.exists_cons_of_ne_nil hsome
  rw [forall_first_iff hcut,
    hplace.syn_front_endsAt_iff hhead hcut hsound hadmits hrun]
  constructor
  · intro hlt hbreaks
    rcases hplace.breaks_syn hbreaks hsyn with ⟨_, _, _, _, _, hstop⟩ |
      ⟨⟨p, hp, hle⟩, _⟩
    · omega
    · have hafter := hplace.after p (hsplit ▸ hp)
      omega
  · intro hnot
    exact Nat.not_le.mp fun hstop =>
      hnot (.synBefore hhead hsyn hfirst hspares hstop)

/-- A `SYN` behind an entry. -/
theorem Placement.syn_behind_iff {first : TsegQent}
    {rest others : List TsegQent}
    (hplace : Placement flowData.head pkt (first :: others) back sequence data
      dataLength)
    (hhead : flowData.head = first :: rest)
    (hqueue : window.Queue flowData.head)
    (hnear : isTooFar flowData pkt = false) (hsyn : pkt.has thSyn = true)
    (hrun : Segments.EndsAt TsegQent.seq TsegQent.stop flowData.head first.seq
      flowData.rcvNxt) :
    Segments.EndsAt TsegQent.seq TsegQent.stop
        (first :: others ++ cutBefore pkt.stop back) first.seq
        flowData.rcvNxt ↔
      ¬ flowData.Breaks disorderDepth pkt := by
  have hmem : first ∈ flowData.head := hhead ▸ List.mem_cons_self
  have hfirst := hplace.before first List.mem_cons_self
  refine (hplace.syn_behind_endsAt_iff hqueue hrun).trans (not_congr ?_)
  constructor
  · exact fun hcuts => .synInside hsyn hnear ⟨first, hmem, hfirst⟩ hcuts
  · intro hbreaks
    rcases hplace.breaks_syn hbreaks hsyn with
      ⟨other, _, heq, hstart, _⟩ | ⟨_, hcuts⟩
    · rw [hhead] at heq
      rw [← (List.cons.inj heq).1] at hstart
      omega
    · exact hcuts

/-- A `SYN` with data is placed and dropped. -/
theorem Placement.syn_tracks_iff
    (hplace : Placement flowData.head pkt front back sequence data dataLength)
    (hsound : flowData.Sound window disorderDepth) (hends : flowData.Ends)
    (htracks : flowData.Tracks) (hadmits : window.Admits pkt)
    (hnear : isTooFar flowData pkt = false) (hsyn : pkt.has thSyn = true)
    (hresult : (placeSegment disorderDepth flowData pkt front back sequence
      data dataLength).2.1.Sound window disorderDepth) :
    (placeSegment disorderDepth flowData pkt front back sequence data
        dataLength).2.1.Ends ∧
      ((placeSegment disorderDepth flowData pkt front back sequence data
        dataLength).2.1.Tracks ↔ ¬ flowData.Breaks disorderDepth pkt) := by
  have hqueue := hsound.queue
  have hlength := hplace.length_spares hqueue.ordered hsound.proper
  obtain ⟨hhead', hrcv⟩ := @Placement.syn_flow window disorderDepth _ _ _ _ _ _
    _ hplace hqueue hadmits hsyn
  have hends' : (placeSegment disorderDepth flowData pkt front back sequence
      data dataLength).2.1.Ends := by
    intro q hq
    rw [hhead'] at hq
    exact hplace.ends_around pkt.stop hends q hq
  refine ⟨hends', ?_⟩
  by_cases hnone : front ++ cutBefore pkt.stop back = []
  · refine iff_of_true (.of_empty (hhead'.trans hnone)) fun hbreaks => ?_
    rcases hplace.breaks_syn hbreaks hsyn with ⟨_, _, _, _, hspares, _⟩ |
      ⟨⟨p, hp, hle⟩, _⟩
    · rw [hnone] at hlength
      exact hspares (List.length_eq_zero_iff.mp hlength.symm)
    · rw [hplace.split, (List.append_eq_nil_iff.mp hnone).1] at hp
      have hafter := hplace.after p hp
      omega
  · rw [TcpFlowData.tracks_iff hresult hends', hhead', hrcv hnone]
    have hspares : pkt.spares flowData.head ≠ [] := by
      intro hempty
      rw [hempty] at hlength
      exact hnone (List.length_eq_zero_iff.mp hlength)
    obtain ⟨first, rest, hhead⟩ := TcpPacket.exists_first hspares
    have hrun := (TcpFlowData.tracks_iff hsound hends).mp htracks first rest
      hhead
    cases front with
    | nil =>
        exact hplace.syn_front_iff hhead hsound hadmits hsyn hspares hnone hrun
    | cons p others =>
        obtain rfl := hplace.first_eq hhead
        exact (forall_first_iff rfl).trans
          (hplace.syn_behind_iff hhead hqueue hnear hsyn hrun)

end Syn

section Inside

variable {window : SeqWindow} {disorderDepth : Nat} {flowData : TcpFlowData}
  {pkt : TcpPacket} {front back : List TsegQent} {p : TsegQent}

/-- A packet that starts and ends within an entry breaks the run only by taking
its place. -/
theorem breaks_of_inside (hqueue : window.Queue flowData.head)
    (hp : p ∈ flowData.head) (hseq : p.seq ≤ pkt.sequence)
    (hover : pkt.sequence < p.stop) (hstop : pkt.stop ≤ p.stop)
    (hbreaks : flowData.Breaks disorderDepth pkt) :
    p.stop = pkt.stop ∧ p.seq < flowData.rcvNxt ∧ p.seq < pkt.sequence ∧
      ∃ q ∈ flowData.head, q.seq < p.seq := by
  have hle : pkt.sequence ≤ pkt.stop := Nat.le_add_right _ _
  have hfirst : ∀ {first rest}, flowData.head = first :: rest →
      first.seq ≤ p.seq := by
    intro first rest hhead
    rw [hhead] at hqueue hp
    exact hqueue.first_le p hp
  have haround : ∀ q ∈ flowData.head, q.seq ≤ q.stop ∧
      (q.stop ≤ p.seq ∨ q = p ∨ p.stop ≤ q.seq) := by
    intro q hq
    obtain ⟨before, after, hsplit⟩ := List.append_of_mem hp
    have hordered := hqueue.ordered
    rw [hsplit] at hordered hq
    exact ⟨Nat.le_add_right _ _, hordered.around hq⟩
  cases hbreaks with
  | before hhead _ _ hgap =>
      have hfirst := hfirst hhead
      omega
  | across _ _ _ _ hstart hend =>
      obtain ⟨q, hq, hafter, hbelow⟩ := hstart
      rcases haround q hq with ⟨_, hside | rfl | hside⟩
      · omega
      · omega
      · omega
  | replace _ hplace =>
      obtain ⟨q, hq, hrun, hbefore, hreach, hequal, hearlier⟩ := hplace
      rcases haround q hq with ⟨_, hside | rfl | hside⟩
      · omega
      · exact ⟨hequal, hrun, hbefore, hearlier⟩
      · omega
  | synBefore hhead _ hstart =>
      have hfirst := hfirst hhead
      omega
  | synInside _ _ _ hcuts =>
      obtain ⟨q, hq, hafter, _, hcut⟩ := hcuts
      rcases haround q hq with ⟨_, hside | rfl | hside⟩
      · omega
      · omega
      · omega

/-- A packet that is too far behind its predecessor breaks nothing. -/
theorem not_breaks_of_tooFar (hqueue : window.Queue flowData.head)
    (hadmits : window.Admits pkt) (hfar : isTooFar flowData pkt = true) :
    ¬ flowData.Breaks disorderDepth pkt := by
  have hshort := window.short
  have hlo := hadmits.lo
  have hhi : pkt.stop ≤ window.hi := hadmits.hi
  have hle : pkt.sequence ≤ pkt.stop := Nat.le_add_right _ _
  obtain ⟨p, hp, hbefore⟩ : ∃ p ∈ flowData.head, p.seq ≤ pkt.sequence := by
    rw [isTooFar, Option.any_eq_true] at hfar
    obtain ⟨p, hsome, _⟩ := hfar
    have hmem := List.mem_of_getLast? hsome
    have hp := (List.takeWhile_sublist _).subset hmem
    have hnot := List.mem_takeWhile_imp hmem
    obtain ⟨hplo, hphi⟩ := hqueue.inside p hp
    have hstop : p.seq ≤ p.stop := Nat.le_add_right _ _
    have hgt := seqGt_iff (a := p.seq) (b := pkt.sequence) (by omega) (by omega)
    refine ⟨p, hp, Nat.not_lt.mp fun hlt => ?_⟩
    rw [hgt.mpr hlt] at hnot
    cases hnot
  have hfirst : ∀ {first rest}, flowData.head = first :: rest →
      first.seq ≤ pkt.sequence := by
    intro first rest hhead
    rw [hhead] at hqueue hp
    exact Nat.le_trans (hqueue.first_le p hp) hbefore
  intro hbreaks
  cases hbreaks with
  | before hhead _ _ hgap =>
      have hfirst := hfirst hhead
      omega
  | across _ _ hnear => exact absurd (hnear.symm.trans hfar) Bool.false_ne_true
  | replace hnear => exact absurd (hnear.symm.trans hfar) Bool.false_ne_true
  | synBefore hhead _ hstart =>
      have hfirst := hfirst hhead
      omega
  | synInside _ hnear =>
      exact absurd (hnear.symm.trans hfar) Bool.false_ne_true

theorem held_split (x : Nat) : Held (front ++ p :: back) x ↔
    Held front x ∨ (p.seq ≤ x ∧ x < p.stop) ∨ Held back x := by
  rw [Held, Segments.covers_append, Segments.covers_cons]
  rfl

/-- The packet in the place of the entry holds what is left of it. -/
theorem held_replaced (hadmits : window.Admits pkt)
    (hover : pkt.sequence < p.stop) (hstop : p.stop = pkt.stop) (x : Nat) :
    Held (front ++ p.replacedBy pkt :: back) x ↔
      Held front x ∨ (pkt.sequence ≤ x ∧ x < p.stop) ∨ Held back x := by
  rw [held_split, TsegQent.replacedBy_seq hadmits hover hstop,
    TsegQent.replacedBy_stop hadmits hover hstop, hstop]

/-- In the place of the first entry the packet ends the run where it ended. -/
theorem replaced_first_endsAt (hhead : flowData.head = p :: back)
    (hadmits : window.Admits pkt) (hseq : p.seq ≤ pkt.sequence)
    (hover : pkt.sequence < p.stop) (hstop : p.stop = pkt.stop)
    (hrun : Segments.EndsAt TsegQent.seq TsegQent.stop flowData.head p.seq
      flowData.rcvNxt) :
    Segments.EndsAt TsegQent.seq TsegQent.stop (p.replacedBy pkt :: back)
      pkt.sequence flowData.rcvNxt := by
  have hnew : ∀ x, Held (p.replacedBy pkt :: back) x ↔ Held [] x ∨
      (pkt.sequence ≤ x ∧ x < p.stop) ∨ Held back x :=
    @held_replaced window pkt [] back p hadmits hover hstop
  have hold : ∀ x, Held flowData.head x ↔ Held [] x ∨
      (p.seq ≤ x ∧ x < p.stop) ∨ Held back x := by
    rw [hhead]
    exact @held_split [] back p
  have hend : p.stop ≤ flowData.rcvNxt :=
    Nat.not_lt.mp fun hlt =>
      hrun.free ⟨p, hhead ▸ List.mem_cons_self, hrun.le, hlt⟩
  refine ⟨by omega, fun x hx hlt => (hnew x).mpr ?_, fun hcovers => ?_⟩
  · rcases (hold x).mp (hrun.covered x (by omega) hlt) with hx' | hx' | hx'
    · exact .inl hx'
    · exact .inr (.inl ⟨hx, hx'.2⟩)
    · exact .inr (.inr hx')
  · rcases (hnew _).mp hcovers with hx' | hx' | hx'
    · exact hrun.free ((hold _).mpr (.inl hx'))
    · omega
    · exact hrun.free ((hold _).mpr (.inr (.inr hx')))

/-- In the place of a later entry the packet leaves the end of the run unless
the entry is one of the run and starts before it. -/
theorem replaced_later_endsAt_iff {first : TsegQent} {others : List TsegQent}
    (hhead : flowData.head = first :: others ++ p :: back)
    (hqueue : window.Queue flowData.head) (hadmits : window.Admits pkt)
    (hseq : p.seq ≤ pkt.sequence) (hover : pkt.sequence < p.stop)
    (hstop : p.stop = pkt.stop)
    (hrun : Segments.EndsAt TsegQent.seq TsegQent.stop flowData.head first.seq
      flowData.rcvNxt) :
    Segments.EndsAt TsegQent.seq TsegQent.stop
        (first :: others ++ p.replacedBy pkt :: back) first.seq
        flowData.rcvNxt ↔
      ¬ (p.seq < flowData.rcvNxt ∧ p.seq < pkt.sequence) := by
  have hnew : ∀ x, Held (first :: others ++ p.replacedBy pkt :: back) x ↔
      Held (first :: others) x ∨ (pkt.sequence ≤ x ∧ x < p.stop) ∨
        Held back x := held_replaced hadmits hover hstop
  have hold : ∀ x, Held flowData.head x ↔ Held (first :: others) x ∨
      (p.seq ≤ x ∧ x < p.stop) ∨ Held back x := hhead ▸ held_split
  have hordered := hqueue.ordered
  rw [hhead] at hordered
  obtain ⟨_, hrest, hacross⟩ := List.pairwise_append.mp hordered
  have hfirst := hacross first List.mem_cons_self p List.mem_cons_self
  have hlength : first.seq ≤ first.stop := Nat.le_add_right _ _
  constructor
  · rintro hend ⟨hbelow, hbefore⟩
    rcases (hnew p.seq).mp (hend.covered p.seq (by omega) hbelow) with
      ⟨q, hq, -, hreach⟩ | hin | ⟨q, hq, hle, -⟩
    · have hstopq := hacross q hq p List.mem_cons_self
      omega
    · omega
    · have hnext := (List.pairwise_cons.mp hrest).1 q hq
      omega
  · intro hnot
    refine ⟨hrun.le, fun x hx hlt => (hnew x).mpr ?_, fun hcovers => ?_⟩
    · rcases (hold x).mp (hrun.covered x hx hlt) with hx' | hx' | hx'
      · exact .inl hx'
      · refine .inr (.inl ⟨Nat.not_lt.mp fun hlost => hnot ?_, hx'.2⟩)
        exact ⟨by omega, by omega⟩
      · exact .inr (.inr hx')
    · refine hrun.free ((hold _).mpr ?_)
      rcases (hnew _).mp hcovers with hx' | hx' | hx'
      · exact .inl hx'
      · exact .inr (.inl ⟨Nat.le_trans hseq hx'.1, hx'.2⟩)
      · exact .inr (.inr hx')

/-- A packet in the place of an entry with the same end leaves the end of the
run unless the entry is a later one of the run and starts before the packet. -/
theorem replace_tracks_iff (hsound : flowData.Sound window disorderDepth)
    (hends : flowData.Ends) (htracks : flowData.Tracks)
    (hadmits : window.Admits pkt) (hnear : isTooFar flowData pkt = false)
    (hhead : flowData.head = front ++ p :: back) (hseq : p.seq ≤ pkt.sequence)
    (hover : pkt.sequence < p.stop) (hstop : p.stop = pkt.stop)
    (hresult : ({ flowData with head := front ++ p.replacedBy pkt :: back } :
      TcpFlowData).Sound window disorderDepth) :
    ({ flowData with head := front ++ p.replacedBy pkt :: back } :
        TcpFlowData).Ends ∧
      (({ flowData with head := front ++ p.replacedBy pkt :: back } :
        TcpFlowData).Tracks ↔ ¬ flowData.Breaks disorderDepth pkt) := by
  have hp : p ∈ flowData.head := by simp [hhead]
  have hnewSeq := TsegQent.replacedBy_seq hadmits hover hstop
  have hnewStop := TsegQent.replacedBy_stop hadmits hover hstop
  have hends' : ({ flowData with head := front ++ p.replacedBy pkt :: back } :
      TcpFlowData).Ends := by
    intro q hq
    rcases List.mem_append.mp hq with hq | hq
    · exact hends q (by simp [hhead, hq])
    · rcases List.mem_cons.mp hq with rfl | hq
      · exact (hends p hp).trans (hstop.trans hnewStop.symm)
      · exact hends q (by simp [hhead, hq])
  refine ⟨hends', ?_⟩
  rw [TcpFlowData.tracks_iff hresult hends']
  dsimp only
  have hinside := fun hbreaks : flowData.Breaks disorderDepth pkt =>
    breaks_of_inside hsound.queue hp hseq hover (Nat.le_of_eq hstop.symm)
      hbreaks
  cases front with
  | nil =>
      have hrun := (TcpFlowData.tracks_iff hsound hends).mp htracks p back hhead
      refine iff_of_true ((forall_first_iff rfl).mpr ?_) fun hbreaks => ?_
      · rw [hnewSeq]
        exact replaced_first_endsAt hhead hadmits hseq hover hstop hrun
      · obtain ⟨_, _, _, q, hq, hlt⟩ := hinside hbreaks
        have hqueue := hsound.queue
        rw [hhead] at hqueue hq
        have hleast := hqueue.first_le q hq
        omega
  | cons first others =>
      have hmem : first ∈ flowData.head := by simp [hhead]
      have hrun := (TcpFlowData.tracks_iff hsound hends).mp htracks first _
        hhead
      have hordered := hsound.queue.ordered
      rw [hhead] at hordered
      have hfirst := (List.pairwise_append.mp hordered).2.2 first
        List.mem_cons_self p List.mem_cons_self
      have hproper := hsound.proper first hmem
      refine (forall_first_iff rfl).trans ((replaced_later_endsAt_iff hhead
        hsound.queue hadmits hseq hover hstop hrun).trans (not_congr ?_))
      constructor
      · rintro ⟨hbelow, hbefore⟩
        exact .replace hnear
          ⟨p, hp, hbelow, hbefore, hover, hstop, first, hmem, by omega⟩
      · intro hbreaks
        obtain ⟨_, hbelow, hbefore, _⟩ := hinside hbreaks
        exact ⟨hbelow, hbefore⟩

end Inside

/-- The queueing part keeps `rcv_nxt` at the end of the run exactly when the
packet does not break the run. -/
theorem queueSegment_tracks_iff {window : SeqWindow} {disorderDepth : Nat}
    {flowData : TcpFlowData} {pkt : TcpPacket}
    (hsound : flowData.Sound window disorderDepth) (hends : flowData.Ends)
    (htracks : flowData.Tracks) (hadmits : window.Admits pkt)
    (hdepth : disorderDepth < 2 ^ 31)
    (hdata : pkt.dataLength = 0 → pkt.has thSyn = true) :
    (queueSegment disorderDepth flowData pkt).2.1.Ends ∧
      ((queueSegment disorderDepth flowData pkt).2.1.Tracks ↔
        ¬ flowData.Breaks disorderDepth pkt) := by
  have hresult := (queueSegment_sound hsound hadmits hdepth hdata).1
  have hcase := queueSegment_case hsound.queue hadmits disorderDepth
  generalize queueSegment disorderDepth flowData pkt = result at hresult hcase ⊢
  cases hcase with
  | tooFar hfar =>
      exact ⟨hends, iff_of_true htracks
        (not_breaks_of_tooFar hsound.queue hadmits hfar)⟩
  | @duplicate front back p hhead hseq hstop =>
      refine ⟨hends, iff_of_true htracks fun hbreaks => ?_⟩
      have hle : pkt.sequence ≤ pkt.stop := Nat.le_add_right _ _
      have hequal := (breaks_of_inside hsound.queue (by simp [hhead]) hseq
        (by omega) (Nat.le_of_lt hstop) hbreaks).1
      omega
  | replace hnear hhead hseq hover hstop =>
      exact replace_tracks_iff hsound hends htracks hadmits hnear hhead hseq
        hover hstop hresult
  | placed hnear hplace =>
      cases hsyn : pkt.has thSyn with
      | true =>
          exact hplace.syn_tracks_iff hsound hends htracks hadmits hnear hsyn
            hresult
      | false =>
          have hne : 0 < pkt.dataLength := by
            refine Nat.pos_of_ne_zero fun hzero => ?_
            rw [hdata hzero] at hsyn
            nomatch hsyn
          exact hplace.queued_tracks_iff hsound hends htracks hadmits hdepth
            hnear hsyn hne hresult

/-- The flows of a session, each with the stored ends of its entries. -/
def MppSsn.Ends (ssn : MppSsn) : Prop :=
  ∀ direction, (ssn.flow direction).Ends

/-- Both flows of a session have `rcv_nxt` at the end of their run. -/
def MppSsn.Tracks (ssn : MppSsn) : Prop :=
  ∀ direction, (ssn.flow direction).Tracks

section Calls

variable {ssn : MppSsn} (direction : FlowDirection) {flowData : TcpFlowData}

/-- Only the flow that is set can lose its run. -/
theorem MppSsn.Tracks.setFlow_iff (h : ssn.Tracks) :
    (ssn.setFlow direction flowData).Tracks ↔ flowData.Tracks := by
  constructor
  · intro hall
    have hself := hall direction
    rwa [MppSsn.flow_setFlow_self] at hself
  · exact MppSsn.forall_flow_setFlow (P := fun _ flow => flow.Tracks) h

theorem MppSsn.Ends.setFlow (h : ssn.Ends) (hflow : flowData.Ends) :
    (ssn.setFlow direction flowData).Ends :=
  MppSsn.forall_flow_setFlow (P := fun _ flow => flow.Ends) h hflow

/-- A call keeps `rcv_nxt` at the end of the runs exactly when its packet does
not break the run of its flow. -/
theorem reassTcp_tracks_iff {disorderDepth : Nat}
    (hdepth : disorderDepth < 2 ^ 31) {windows : FlowDirection → SeqWindow}
    (hsound : ssn.Sound windows disorderDepth) (hends : ssn.Ends)
    (htracks : ssn.Tracks) {pkt : TcpPacket} (hpkt : pkt.Passed windows) :
    (reassTcp disorderDepth ssn pkt).ssn.Ends ∧
      ((reassTcp disorderDepth ssn pkt).ssn.Tracks ↔
        ¬ pkt.BreaksRun disorderDepth ssn) := by
  have hfwd := hsound pkt.direction
  obtain ⟨hackEnds, hackTracks⟩ := ackReverse_tracks (ssn.flow pkt.direction)
    (hsound pkt.direction.other) hdepth (hends pkt.direction.other)
    (htracks pkt.direction.other) pkt.ackNum
  have hssnEnds := hends.setFlow pkt.direction.other hackEnds
  have hssnTracks := (htracks.setFlow_iff pkt.direction.other).mpr hackTracks
  simp only [reassTcp]
  split
  case isTrue hfirst =>
    exact ⟨hends, iff_of_true htracks fun hbreaks =>
      Nat.not_lt.mpr hbreaks.first hfirst⟩
  case isFalse hfirst =>
    cases hpurge : pkt.has (thFin ||| thRst) with
    | true =>
        refine ⟨hssnEnds.setFlow _ fun q hq => absurd hq List.not_mem_nil,
          iff_of_true ((hssnTracks.setFlow_iff _).mpr (.of_empty rfl))
            fun hbreaks => ?_⟩
        exact Bool.false_ne_true (hbreaks.kept.symm.trans hpurge)
    | false =>
        have hroom : ¬ disorderDepth ≤ (ssn.flow pkt.direction).tsegqeLen := by
          rw [hfwd.counted]
          exact Nat.not_le.mpr hfwd.short
        simp only [Bool.false_eq_true, if_false, hroom]
        cases halloc : pkt.allocOk with
        | false =>
            refine ⟨hssnEnds, iff_of_true hssnTracks fun hbreaks => ?_⟩
            exact Bool.false_ne_true (halloc.symm.trans hbreaks.alloc)
        | true =>
            obtain ⟨hqueueEnds, hqueueTracks⟩ := queueSegment_tracks_iff hfwd
              (hends pkt.direction) (htracks pkt.direction) hpkt.admits hdepth
              fun hzero => TcpPacket.syn_of_flags (hpkt.flags hzero) hpurge
            simp only [Bool.not_true, Bool.false_eq_true, if_false]
            refine ⟨hssnEnds.setFlow _ hqueueEnds, ?_⟩
            rw [hssnTracks.setFlow_iff, hqueueTracks, not_iff_not]
            exact ⟨fun hbreaks => ⟨Nat.not_lt.mp hfirst, hpurge, halloc,
              hbreaks⟩, fun hbreaks => hbreaks.breaks⟩

end Calls

/-- A run keeps `rcv_nxt` at the ends exactly when no packet of it breaks a
run. -/
theorem runReass_keepsRuns_iff {disorderDepth : Nat}
    (hdepth : disorderDepth < 2 ^ 31) {windows : FlowDirection → SeqWindow}
    (pkts : List TcpPacket) (hpkts : ∀ pkt ∈ pkts, pkt.Passed windows)
    {ssn : MppSsn} (hsound : ssn.Sound windows disorderDepth)
    (hends : ssn.Ends) (htracks : ssn.Tracks) :
    (∀ result ∈ runReass disorderDepth ssn pkts, result.ssn.Tracks) ↔
      KeepsRuns disorderDepth ssn pkts := by
  induction pkts generalizing ssn with
  | nil => exact iff_of_true (fun _ hmem => absurd hmem List.not_mem_nil) trivial
  | cons pkt rest ih =>
      have hpkt := hpkts pkt List.mem_cons_self
      have hrest := fun other hother =>
        hpkts other (List.mem_cons_of_mem pkt hother)
      have hok := reassTcp_ok hdepth hsound hpkt
      obtain ⟨hends', hiff⟩ := reassTcp_tracks_iff hdepth hsound hends htracks
        hpkt
      rw [runReass, List.forall_mem_cons, KeepsRuns, hiff]
      refine and_congr_right fun hkeeps => ?_
      exact ih hrest hok.sound hends' (hiff.mpr hkeeps)

/-- From empty queues on, both flows have `rcv_nxt` at the end of the gap-free
run after every call exactly when no packet of the run breaks a run. -/
theorem runReass_tracks_iff {disorderDepth : Nat} (hpos : 1 ≤ disorderDepth)
    (hdepth : disorderDepth < 2 ^ 8) {ssn : MppSsn}
    (hempty : ∀ direction, (ssn.flow direction).head = [] ∧
      (ssn.flow direction).tsegqeLen = 0)
    (windows : FlowDirection → SeqWindow) (pkts : List TcpPacket)
    (hpkts : ∀ pkt ∈ pkts, pkt.Passed windows) :
    (∀ result ∈ runReass disorderDepth ssn pkts,
      ∀ direction, (result.ssn.flow direction).Tracks) ↔
        KeepsRuns disorderDepth ssn pkts := by
  apply runReass_keepsRuns_iff (Nat.lt_trans hdepth (by decide)) pkts hpkts
  · exact fun direction =>
      .of_empty (hempty direction).1 (hempty direction).2 hpos
  · intro direction q hq
    rw [(hempty direction).1] at hq
    exact absurd hq List.not_mem_nil
  · exact fun direction => .of_empty (hempty direction).1

/-- A packet that starts in a gap and reaches the first entry breaks no run. -/
theorem not_breaksRun_of_gap {disorderDepth : Nat} {ssn : MppSsn}
    {pkt : TcpPacket} (hsyn : pkt.has thSyn = false)
    (hfirst : ∀ q ∈ (ssn.flow pkt.direction).head.head?, q.seq ≤ pkt.stop)
    (hahead : ∀ q ∈ (ssn.flow pkt.direction).head, pkt.sequence < q.seq →
      (ssn.flow pkt.direction).rcvNxt ≤ q.seq)
    (hgap : ∀ q ∈ (ssn.flow pkt.direction).head, q.seq < pkt.sequence →
      q.stop ≤ pkt.sequence) :
    ¬ pkt.BreaksRun disorderDepth ssn := by
  rintro ⟨_, _, _, hbreaks⟩
  cases hbreaks with
  | before hhead _ _ hbefore =>
      rw [hhead] at hfirst
      exact absurd (hfirst _ rfl) (Nat.not_le.mpr hbefore)
  | across _ _ _ _ hstart _ =>
      obtain ⟨q, hq, hlater, hinside⟩ := hstart
      exact absurd (hahead q hq hlater) (Nat.not_le.mpr hinside)
  | replace _ hplace =>
      obtain ⟨q, hq, _, hbefore, hinside, _⟩ := hplace
      exact absurd (hgap q hq hbefore) (Nat.not_le.mpr hinside)
  | synBefore _ hhas _ _ _ => exact Bool.false_ne_true (hsyn.symm.trans hhas)
  | synInside hhas _ _ _ => exact Bool.false_ne_true (hsyn.symm.trans hhas)

/-- Bytes 91 to 100, then 111 to 120, and then those between them. -/
def filledPackets : List TcpPacket :=
  [⟨91, 200, fun _ => 1, 10, 0, .positive, true⟩,
    ⟨111, 200, fun _ => 2, 10, 0, .positive, true⟩,
    ⟨101, 200, fun _ => 3, 10, 0, .positive, true⟩]

theorem filledPackets_passed :
    ∀ pkt ∈ filledPackets, pkt.Passed fun _ => firstWindow := by
  intro pkt hpkt
  simp only [filledPackets, List.mem_cons, List.not_mem_nil, or_false] at hpkt
  rcases hpkt with rfl | rfl | rfl <;>
    exact ⟨⟨by decide, by decide⟩, by decide⟩

/-- `rcv_nxt` follows the run while the gap is open and after it has been
filled. -/
theorem filledPackets_tracks :
    (∀ result ∈ runReass 5 (ssnPrepare 90 200) filledPackets,
        ∀ direction, (result.ssn.flow direction).Tracks) ∧
      (runReass 5 (ssnPrepare 90 200) filledPackets).map
        (fun result => result.ssn.positiveData.rcvNxt) = [101, 101, 121] := by
  refine ⟨?_, by decide⟩
  refine (runReass_tracks_iff (by decide) (by decide)
    (fun direction => by cases direction <;> exact ⟨rfl, rfl⟩)
    (fun _ => firstWindow) filledPackets filledPackets_passed).mpr ?_
  refine ⟨?_, ?_, ?_, trivial⟩ <;>
    exact not_breaksRun_of_gap rfl (by decide) (by decide) (by decide)

/-- Bytes 111 to 120, and then bytes 91 to 95. -/
def gapPackets : List TcpPacket :=
  [⟨111, 200, fun _ => 1, 10, 0, .positive, true⟩,
    ⟨91, 200, fun _ => 2, 5, 0, .positive, true⟩]

theorem gapPackets_passed :
    ∀ pkt ∈ gapPackets, pkt.Passed fun _ => firstWindow := by
  intro pkt hpkt
  simp only [gapPackets, List.mem_cons, List.not_mem_nil, or_false] at hpkt
  rcases hpkt with rfl | rfl <;>
    exact ⟨⟨by decide, by decide⟩, by decide⟩

/-- After the second packet the run ends at 96, and `rcv_nxt` is 121. -/
theorem gapPackets_not_tracks :
    (∀ pkt ∈ gapPackets, pkt.Passed fun _ => firstWindow) ∧
      (∀ pkt ∈ gapPackets, pkt.allocOk = true) ∧
      ¬ ∀ result ∈ runReass 5 (ssnPrepare 90 200) gapPackets,
        ∀ direction, (result.ssn.flow direction).Tracks := by
  refine ⟨gapPackets_passed, by decide, fun hall => ?_⟩
  have hlast := hall _ (List.mem_cons_of_mem _ List.mem_cons_self) .positive
  have hsome : ((runReass 5 (ssnPrepare 90 200) gapPackets).get
      ⟨1, by decide⟩).ssn.positiveData.head ≠ [] := List.cons_ne_nil _ _
  have hends := hlast.rcvNxt hsome
  exact absurd hends (by decide)

end Barley
