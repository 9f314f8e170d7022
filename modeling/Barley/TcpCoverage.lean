/-
Which bytes a queue holds after a packet.  A placed packet adds its positions
and keeps all others; a packet that takes the place of a longer entry with the
same end, and a `SYN` with data, lose positions that were held before.
-/
import Barley.TcpQueue

namespace Barley

/-- The entry holds `byte` for position `x` of the stream. -/
def TsegQent.Carries (q : TsegQent) (x : Nat) (byte : UInt8) : Prop :=
  q.seq ≤ x ∧ x < q.stop ∧ q.data (x - q.seq) = byte

/-- The packet brings `byte` for position `x` of the stream. -/
def TcpPacket.Carries (pkt : TcpPacket) (x : Nat) (byte : UInt8) : Prop :=
  pkt.sequence ≤ x ∧ x < pkt.stop ∧ pkt.data (x - pkt.sequence) = byte

/-- One of the entries has position `x`. -/
def Held (queue : List TsegQent) (x : Nat) : Prop :=
  Segments.Covers TsegQent.seq TsegQent.stop queue x

/-- No position is lost, the positions of the packet are added, and every byte
comes from the packet or from an entry that had it for the same position. -/
structure KeepsBytes (before : List TsegQent) (pkt : TcpPacket)
    (after : List TsegQent) : Prop where
  held : pkt.has thSyn = false → ∀ x,
    Held after x ↔ Held before x ∨ (pkt.sequence ≤ x ∧ x < pkt.stop)
  syn : pkt.has thSyn = true → ∀ x, Held before x → Held after x
  backed : ∀ q ∈ after, ∀ x byte, q.Carries x byte →
    pkt.Carries x byte ∨ ∃ old ∈ before, old.Carries x byte

/-- An entry starts before the packet, reaches into it and ends where it
ends. -/
def TcpPacket.Displaces (pkt : TcpPacket) (queue : List TsegQent) : Prop :=
  ∃ q ∈ queue, q.seq < pkt.sequence ∧ pkt.sequence < q.stop ∧
    q.stop = pkt.stop

/-- A `SYN` that carries data past the start of an entry. -/
def TcpPacket.SynCuts (pkt : TcpPacket) (queue : List TsegQent) : Prop :=
  pkt.has thSyn = true ∧ ∃ q ∈ queue, q.seq < q.stop ∧
    pkt.sequence < q.seq ∧ q.seq < pkt.stop

theorem held_cutBefore {stop x : Nat} {back : List TsegQent}
    (hback : Segments.Ordered TsegQent.seq TsegQent.stop back) :
    Held (cutBefore stop back) x ↔ Held back x ∧ stop ≤ x := by
  induction back with
  | nil => simp [Held, cutBefore]
  | cons q rest ih =>
      obtain ⟨hfirst, hrest⟩ := List.pairwise_cons.mp hback
      have hlater : Held rest x → q.stop ≤ x := by
        rintro ⟨other, hmem, hle, -⟩
        exact Nat.le_trans (hfirst other hmem) hle
      have hqstop : q.seq ≤ q.stop := Nat.le_add_right _ _
      simp only [Held] at ih hlater
      simp only [Held, cutBefore]
      by_cases hapart : stop ≤ q.seq
      · rw [if_pos hapart, Segments.covers_cons]
        constructor
        · intro hheld
          refine ⟨hheld, ?_⟩
          rcases hheld with hheld | hheld
          · omega
          · have := hlater hheld
            omega
        · exact And.left
      · rw [if_neg hapart]
        by_cases hpart : stop < q.stop
        · have hend : stop + (q.stop - stop) = q.stop := by omega
          rw [if_pos hpart, Segments.covers_cons, Segments.covers_cons]
          simp only [TsegQent.stop] at hend hlater ⊢
          rw [hend]
          constructor
          · rintro (hheld | hheld)
            · exact ⟨.inl ⟨by omega, hheld.2⟩, hheld.1⟩
            · have := hlater hheld
              simp only [TsegQent.stop] at hpart
              exact ⟨.inr hheld, by omega⟩
          · rintro ⟨hheld | hheld, hle⟩
            · exact .inl ⟨hle, hheld.2⟩
            · exact .inr hheld
        · rw [if_neg hpart, ih hrest, Segments.covers_cons]
          constructor
          · exact fun hheld => ⟨.inr hheld.1, hheld.2⟩
          · rintro ⟨hheld | hheld, hle⟩
            · omega
            · exact ⟨hheld, hle⟩

/-- Cutting moves no byte. -/
theorem cutBefore_carries {stop x : Nat} {byte : UInt8}
    {back : List TsegQent} {q : TsegQent} (hq : q ∈ cutBefore stop back)
    (hcarries : q.Carries x byte) : ∃ old ∈ back, old.Carries x byte := by
  induction back with
  | nil => simp [cutBefore] at hq
  | cons first rest ih =>
      simp only [cutBefore] at hq
      by_cases hapart : stop ≤ first.seq
      · rw [if_pos hapart] at hq
        exact ⟨q, hq, hcarries⟩
      · rw [if_neg hapart] at hq
        by_cases hpart : stop < first.stop
        · rw [if_pos hpart] at hq
          rcases List.mem_cons.mp hq with rfl | hq
          · obtain ⟨hle, hlt, hbyte⟩ := hcarries
            simp only [TsegQent.stop] at hle hlt hbyte hpart
            refine ⟨first, List.mem_cons_self, by omega, ?_, ?_⟩
            · simp only [TsegQent.stop]
              omega
            · rw [← hbyte]
              congr 1
              omega
          · exact ⟨q, List.mem_cons_of_mem first hq, hcarries⟩
        · rw [if_neg hpart] at hq
          obtain ⟨old, hold, hbyte⟩ := ih hq
          exact ⟨old, List.mem_cons_of_mem first hold, hbyte⟩

section Placed

variable {queue front back : List TsegQent} {pkt : TcpPacket}
  {sequence dataLength : Nat} {data : Nat → UInt8}
  (hplace : Placement queue pkt front back sequence data dataLength)

include hplace

theorem Placement.not_displaces : ¬ pkt.Displaces queue := by
  rintro ⟨q, hq, hbefore, hover, hequal⟩
  rw [hplace.split] at hq
  rcases List.mem_append.mp hq with hq | hq
  · have hfree := hplace.free q hq
    have hend := hplace.stop
    have hstop : pkt.stop = pkt.sequence + pkt.dataLength := rfl
    have hpos := hplace.nonempty (by omega)
    omega
  · have hafter := hplace.after q hq
    omega

theorem Placement.held_queue (x : Nat) :
    Held queue x ↔ Held front x ∨ Held back x := by
  rw [Held, hplace.split, Segments.covers_append]
  rfl

theorem Placement.cut_carries {q : TsegQent}
    (hq : q ∈ front ++ cutBefore pkt.stop back) {x : Nat} {byte : UInt8}
    (hcarries : q.Carries x byte) : ∃ old ∈ queue, old.Carries x byte := by
  rw [hplace.split]
  rcases List.mem_append.mp hq with hq | hq
  · exact ⟨q, List.mem_append_left back hq, hcarries⟩
  · obtain ⟨old, hold, hbyte⟩ := cutBefore_carries hq hcarries
    exact ⟨old, List.mem_append_right front hold, hbyte⟩

/-- The new entry holds what its predecessors leave of the packet. -/
theorem Placement.mem_entry {window : SeqWindow}
    (hadmits : window.Admits pkt) (nxtSeq x : Nat) :
    ((pkt.entry sequence data dataLength nxtSeq).seq ≤ x ∧
        x < (pkt.entry sequence data dataLength nxtSeq).stop) ↔
      sequence ≤ x ∧ x < pkt.stop := by
  have hend := hplace.stop
  rcases Nat.eq_zero_or_pos dataLength with rfl | hpos
  · have hempty : (pkt.entry sequence data 0 nxtSeq).stop =
      (pkt.entry sequence data 0 nxtSeq).seq := rfl
    omega
  · rw [hplace.entry_seq hadmits hpos, hplace.entry_stop hadmits hpos]

/-- The new entry carries the bytes of the packet. -/
theorem Placement.entry_carries {window : SeqWindow}
    (hadmits : window.Admits pkt) {nxtSeq x : Nat} {byte : UInt8}
    (hcarries : (pkt.entry sequence data dataLength nxtSeq).Carries x byte) :
    pkt.Carries x byte := by
  obtain ⟨hle, hlt, hbyte⟩ := hcarries
  obtain ⟨hle', hlt'⟩ := (hplace.mem_entry hadmits nxtSeq x).mp ⟨hle, hlt⟩
  have hend := hplace.stop
  have hstart := hplace.start
  rw [hplace.entry_seq hadmits (by omega)] at hbyte
  refine ⟨by omega, hlt', ?_⟩
  rw [← hbyte]
  show pkt.data (x - pkt.sequence) = data (x - sequence)
  rw [hplace.bytes]
  congr 1
  omega

end Placed

section Cases

variable {window : SeqWindow} {queue front back : List TsegQent}
  {pkt : TcpPacket} (hqueue : window.Queue queue)

include hqueue

/-- A packet that lies within one entry adds nothing, and nothing is lost. -/
theorem keepsBytes_duplicate {p : TsegQent} (hhead : queue = front ++ p :: back)
    (hseq : p.seq ≤ pkt.sequence) (hstop : pkt.stop < p.stop) :
    KeepsBytes queue pkt queue ∧ ¬ pkt.Displaces queue ∧
      ¬ pkt.SynCuts queue := by
  have hordered := hqueue.ordered
  rw [hhead] at hordered
  have hpstop : pkt.sequence ≤ pkt.stop := Nat.le_add_right _ _
  have hp : p ∈ queue := by simp [hhead]
  refine ⟨⟨fun _ x => ⟨.inl, ?_⟩, fun _ x => id,
    fun q hq x byte hcarries => .inr ⟨q, hq, hcarries⟩⟩, ?_, ?_⟩
  · rintro (hheld | ⟨hle, hlt⟩)
    · exact hheld
    · exact ⟨p, hp, by omega, by omega⟩
  · rintro ⟨q, hq, hbefore, hover, hequal⟩
    rcases hordered.around (hhead ▸ hq) with hside | rfl | hside
    · omega
    · omega
    · omega
  · rintro ⟨-, q, hq, hne, hafter, hinside⟩
    rcases hordered.around (hhead ▸ hq) with hside | rfl | hside
    · omega
    · omega
    · omega

/-- A packet in the place of an entry loses what that entry had before it. -/
theorem keepsBytes_replace {p : TsegQent} (hadmits : window.Admits pkt)
    (hhead : queue = front ++ p :: back) (hseq : p.seq ≤ pkt.sequence)
    (hover : pkt.sequence < p.stop) (hstop : p.stop = pkt.stop) :
    (KeepsBytes queue pkt (front ++ p.replacedBy pkt :: back) ↔
      ¬ pkt.Displaces queue) ∧ ¬ pkt.SynCuts queue := by
  have hordered := hqueue.ordered
  rw [hhead] at hordered
  have hnewSeq := TsegQent.replacedBy_seq hadmits hover hstop
  have hnewStop := TsegQent.replacedBy_stop hadmits hover hstop
  have hheld : ∀ x, Held (front ++ p.replacedBy pkt :: back) x ↔
      Held front x ∨ (pkt.sequence ≤ x ∧ x < pkt.stop) ∨ Held back x := by
    intro x
    rw [Held, Segments.covers_append, Segments.covers_cons, hnewSeq, hnewStop]
    rfl
  have hold : ∀ x, Held queue x ↔
      Held front x ∨ (p.seq ≤ x ∧ x < p.stop) ∨ Held back x := by
    intro x
    rw [Held, hhead, Segments.covers_append, Segments.covers_cons]
    rfl
  refine ⟨⟨?_, ?_⟩, ?_⟩
  · rintro hkeeps ⟨q, hq, hbefore, hreach, hequal⟩
    -- the first position of the displaced entry is gone
    have hsame : q = p := by
      rcases hordered.around (hhead ▸ hq) with hside | rfl | hside
      · omega
      · rfl
      · omega
    subst hsame
    have hlost : ¬ Held (front ++ q.replacedBy pkt :: back) q.seq := by
      obtain ⟨_, hrest, hacross⟩ := List.pairwise_append.mp hordered
      rw [hheld]
      rintro (⟨other, hmem, -, hlt⟩ | hmid | ⟨other, hmem, hle, -⟩)
      · have := hacross other hmem q List.mem_cons_self
        omega
      · omega
      · have := (List.pairwise_cons.mp hrest).1 other hmem
        omega
    have hfound : Held queue q.seq := ⟨q, hq, Nat.le_refl _, by omega⟩
    cases hsyn : pkt.has thSyn with
    | true => exact hlost (hkeeps.syn hsyn q.seq hfound)
    | false => exact hlost ((hkeeps.held hsyn q.seq).mpr (.inl hfound))
  · intro hdisplaces
    have hstart : p.seq = pkt.sequence := by
      refine Nat.le_antisymm hseq (Nat.not_lt.mp fun hlt => ?_)
      exact hdisplaces ⟨p, by simp [hhead], hlt, hover, hstop⟩
    rw [hstart, hstop] at hold
    refine ⟨fun _ x => ?_, fun _ x hx => ?_, ?_⟩
    · rw [hheld, hold]
      tauto
    · rwa [hheld, ← hold]
    · intro q hq x byte hcarries
      rcases List.mem_append.mp hq with hq | hq
      · exact .inr ⟨q, by simp [hhead, hq], hcarries⟩
      · rcases List.mem_cons.mp hq with rfl | hq
        · rw [TsegQent.Carries, hnewSeq, hnewStop] at hcarries
          exact .inl hcarries
        · exact .inr ⟨q, by simp [hhead, hq], hcarries⟩
  · rintro ⟨-, q, hq, hne, hafter, hinside⟩
    rcases hordered.around (hhead ▸ hq) with hside | rfl | hside
    · omega
    · omega
    · omega

variable {sequence dataLength : Nat} {data : Nat → UInt8}
  (hplace : Placement queue pkt front back sequence data dataLength)

include hplace

theorem Placement.held_cut (x : Nat) :
    Held (front ++ cutBefore pkt.stop back) x ↔
      Held front x ∨ (Held back x ∧ pkt.stop ≤ x) := by
  have hordered := hqueue.ordered
  rw [hplace.split] at hordered
  rw [Held, Segments.covers_append]
  exact or_congr Iff.rfl
    (held_cutBefore (List.pairwise_append.mp hordered).2.1)

/-- A `SYN` keeps everything unless its data reaches into an entry. -/
theorem keepsBytes_syn (hsyn : pkt.has thSyn = true) :
    KeepsBytes queue pkt (front ++ cutBefore pkt.stop back) ↔
      ¬ pkt.SynCuts queue := by
  constructor
  · rintro hkeeps ⟨-, q, hq, hne, hafter, hinside⟩
    have hmem : q ∈ back := by
      have hq' := hq
      rw [hplace.split] at hq'
      rcases List.mem_append.mp hq' with hfront | hback
      · have := hplace.before q hfront
        omega
      · exact hback
    have hkept := hkeeps.syn hsyn q.seq ⟨q, hq, Nat.le_refl _, hne⟩
    rw [hplace.held_cut hqueue] at hkept
    rcases hkept with ⟨other, hother, -, hlt⟩ | ⟨-, hle⟩
    · have hordered := hqueue.ordered
      rw [hplace.split] at hordered
      have := (List.pairwise_append.mp hordered).2.2 other hother q hmem
      omega
    · omega
  · intro hcuts
    refine ⟨fun hnot => ?_, fun _ x hx => ?_, fun q hq x byte hcarries =>
      .inr (hplace.cut_carries hq hcarries)⟩
    · rw [hsyn] at hnot
      cases hnot
    · rw [hplace.held_cut hqueue]
      rcases (hplace.held_queue x).mp hx with hfront |
        ⟨q, hq, hle, hlt⟩
      · exact .inl hfront
      · refine .inr ⟨⟨q, hq, hle, hlt⟩, ?_⟩
        by_contra hbefore
        have hmem : q ∈ queue := by simp [hplace.split, hq]
        exact hcuts ⟨hsyn, q, hmem, by omega, hplace.after q hq, by omega⟩

theorem Placement.held_placed (hadmits : window.Admits pkt) (nxtSeq x : Nat) :
    Held (front ++ pkt.entry sequence data dataLength nxtSeq ::
        cutBefore pkt.stop back) x ↔
      Held front x ∨ (sequence ≤ x ∧ x < pkt.stop) ∨
        (Held back x ∧ pkt.stop ≤ x) := by
  have hcut := hplace.held_cut hqueue x
  rw [Held, Segments.covers_append] at hcut
  rw [Held, Segments.covers_append, Segments.covers_cons,
    hplace.mem_entry hadmits]
  simp only [Held] at hcut ⊢
  tauto

/-- Nothing is lost and only positions of the packet are added. -/
theorem Placement.held_placed_iff (hadmits : window.Admits pkt)
    (nxtSeq x : Nat) :
    Held (front ++ pkt.entry sequence data dataLength nxtSeq ::
        cutBefore pkt.stop back) x ↔
      Held queue x ∨ (pkt.sequence ≤ x ∧ x < pkt.stop) := by
  rw [hplace.held_placed hqueue hadmits, hplace.held_queue]
  have hcarried := hplace.carried x
  have hstart := hplace.start
  have hafter : Held back x → pkt.sequence ≤ x := by
    rintro ⟨q, hq, hle, -⟩
    exact Nat.le_trans (Nat.le_of_lt (hplace.after q hq)) hle
  constructor
  · rintro (hx | hx | hx)
    · exact .inl (.inl hx)
    · exact .inr ⟨by omega, hx.2⟩
    · exact .inl (.inr hx.1)
  · intro hx
    by_cases hfront : Held front x
    · exact .inl hfront
    · by_cases hstop : pkt.stop ≤ x
      · rcases hx with (hx | hx) | hx
        · exact absurd hx hfront
        · exact .inr (.inr ⟨hx, hstop⟩)
        · omega
      · have hle : pkt.sequence ≤ x := by
          rcases hx with (hx | hx) | hx
          · exact absurd hx hfront
          · exact hafter hx
          · exact hx.1
        refine .inr (.inl ⟨?_, Nat.not_le.mp hstop⟩)
        by_contra hlt
        exact hfront (hcarried hle (Nat.not_le.mp hlt))

/-- A placed packet keeps everything. -/
theorem keepsBytes_queued (hadmits : window.Admits pkt)
    (hsyn : pkt.has thSyn = false) (nxtSeq : Nat) :
    KeepsBytes queue pkt (front ++
      pkt.entry sequence data dataLength nxtSeq :: cutBefore pkt.stop back) := by
  refine ⟨fun _ => hplace.held_placed_iff hqueue hadmits nxtSeq,
    fun hnot => ?_, ?_⟩
  · rw [hsyn] at hnot
    cases hnot
  · intro q hq x byte hcarries
    by_cases hnew : q = pkt.entry sequence data dataLength nxtSeq
    · subst hnew
      exact .inl (hplace.entry_carries hadmits hcarries)
    · refine .inr (hplace.cut_carries ?_ hcarries)
      rcases List.mem_append.mp hq with hq | hq
      · exact List.mem_append_left _ hq
      · exact List.mem_append_right front
          ((List.mem_cons.mp hq).resolve_left hnew)

end Cases

/-- The outcomes in which the packet was not rejected and no queue of its own
direction was sent. -/
def ReassOutcome.Kept : ReassOutcome → Prop
  | .duplicate | .replace | .syn | .queued => True
  | _ => False

/-- Such a call did what the queueing part does. -/
theorem reassTcp_kept {disorderDepth : Nat} {ssn : MppSsn} {pkt : TcpPacket}
    (hkept : (reassTcp disorderDepth ssn pkt).outcome.Kept) :
    (queueSegment disorderDepth (ssn.flow pkt.direction) pkt).1.Kept ∧
      (reassTcp disorderDepth ssn pkt).ssn.flow pkt.direction =
        (queueSegment disorderDepth (ssn.flow pkt.direction) pkt).2.1 := by
  simp only [reassTcp] at hkept ⊢
  split at hkept
  · exact hkept.elim
  · split at hkept
    · exact hkept.elim
    · split at hkept
      · exact hkept.elim
      · split at hkept
        · exact hkept.elim
        · rw [if_neg ‹_›, if_neg ‹_›, if_neg ‹_›, if_neg ‹_›]
          exact ⟨hkept, MppSsn.flow_setFlow_self _ _ _⟩

/-- No byte is lost by a packet that is not rejected and sends nothing of its
own direction, exactly when it displaces no longer entry and is no `SYN` that
cuts into one. -/
theorem reassTcp_keepsBytes_iff {disorderDepth : Nat} {ssn : MppSsn}
    {pkt : TcpPacket} {window : SeqWindow}
    (hqueue : window.Queue (ssn.flow pkt.direction).head)
    (hadmits : window.Admits pkt)
    (hkept : (reassTcp disorderDepth ssn pkt).outcome.Kept) :
    KeepsBytes (ssn.flow pkt.direction).head pkt
        ((reassTcp disorderDepth ssn pkt).ssn.flow pkt.direction).head ↔
      ¬ pkt.Displaces (ssn.flow pkt.direction).head ∧
        ¬ pkt.SynCuts (ssn.flow pkt.direction).head := by
  obtain ⟨hqueued, hflow⟩ := reassTcp_kept hkept
  rw [hflow]
  have hstep := queueSegment_step hqueue hadmits disorderDepth
  generalize queueSegment disorderDepth (ssn.flow pkt.direction) pkt = result
    at hstep hqueued ⊢
  cases hstep with
  | tooFar => exact hqueued.elim
  | flush => exact hqueued.elim
  | duplicate hhead hseq hstop =>
      obtain ⟨hkeeps, hclear⟩ := keepsBytes_duplicate hqueue hhead hseq hstop
      exact iff_of_true hkeeps hclear
  | replace hhead hseq hover hstop =>
      obtain ⟨hiff, hcuts⟩ := keepsBytes_replace hqueue hadmits hhead hseq
        hover hstop
      rw [hiff]
      exact (and_iff_left hcuts).symm
  | syn hsyn hplace =>
      rw [keepsBytes_syn hqueue hplace hsyn]
      exact (and_iff_right hplace.not_displaces).symm
  | @queued _ _ _ _ nxtSeq _ _ _ hsyn hplace =>
      refine iff_of_true (keepsBytes_queued hqueue hplace hadmits hsyn nxtSeq)
        ⟨hplace.not_displaces, fun hcuts => ?_⟩
      have hnot := hcuts.1
      rw [hsyn] at hnot
      cases hnot

/-- A session with the bytes 100 to 119 of one side. -/
def heldSsn : MppSsn :=
  (reassTcp 5 (ssnPrepare 100 200)
    ⟨100, 200, fun _ => 1, 20, 0, .positive, true⟩).ssn

/-- `length` bytes from 110 on. -/
def innerPacket (length : Nat) : TcpPacket :=
  ⟨110, 200, fun _ => 2, length, 0, .positive, true⟩

def firstWindow : SeqWindow := ⟨0, 1000, by decide, by decide⟩

theorem heldSsn_queue : firstWindow.Queue heldSsn.positiveData.head := by
  constructor
  · exact List.pairwise_singleton _ _
  · show ∀ q ∈ heldSsn.positiveData.head,
      0 ≤ q.seq ∧ q.seq + q.dataLen ≤ 1000
    decide

/-- Bytes 100 to 109 are lost to a packet with the bytes 110 to 119. -/
theorem innerPacket_not_keepsBytes :
    firstWindow.Queue heldSsn.positiveData.head ∧
      firstWindow.Admits (innerPacket 10) ∧
      (reassTcp 5 heldSsn (innerPacket 10)).outcome.Kept ∧
      ¬ KeepsBytes heldSsn.positiveData.head (innerPacket 10)
        (reassTcp 5 heldSsn (innerPacket 10)).ssn.positiveData.head := by
  refine ⟨heldSsn_queue, ⟨by decide, by decide⟩, trivial, fun hkeeps => ?_⟩
  have hstarts : ∀ q ∈
      (reassTcp 5 heldSsn (innerPacket 10)).ssn.positiveData.head,
      110 ≤ q.seq := by
    decide
  have hheld : Held heldSsn.positiveData.head 100 :=
    ⟨_, List.mem_cons_self, by decide, by decide⟩
  obtain ⟨q, hq, hle, -⟩ := (hkeeps.held rfl 100).mpr (.inl hheld)
  have hstart := hstarts q hq
  omega

theorem reassTcp_keepsBytes_iff_innerPacket :
    KeepsBytes heldSsn.positiveData.head (innerPacket 30)
      (reassTcp 5 heldSsn (innerPacket 30)).ssn.positiveData.head := by
  refine (@reassTcp_keepsBytes_iff 5 heldSsn (innerPacket 30) firstWindow
    heldSsn_queue ⟨by decide, by decide⟩ trivial).mpr ⟨?_, ?_⟩
  · rintro ⟨q, hq, -, -, hstop⟩
    have hends : ∀ q ∈ heldSsn.positiveData.head,
        q.stop ≠ (innerPacket 30).stop := by
      decide
    exact hends q hq hstop
  · rintro ⟨hsyn, -⟩
    cases hsyn

end Barley
