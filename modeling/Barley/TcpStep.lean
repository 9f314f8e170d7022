/-
One step of the queueing part of the reassembly.  Within a window the packet
is dropped, takes the place of an entry that ends where it ends, or what its
predecessors leave of it is put between them and the cut successors.
-/
import Barley.TcpWindow

namespace Barley

/-- The position behind the last byte of a packet. -/
def TcpPacket.stop (pkt : TcpPacket) : Nat := pkt.sequence + pkt.dataLength

/-- The part of the packet that is put between `front` and `back`. -/
structure Placement (queue : List TsegQent) (pkt : TcpPacket)
    (front back : List TsegQent) (sequence : Nat) (data : Nat → UInt8)
    (dataLength : Nat) : Prop where
  split : queue = front ++ back
  before : ∀ q ∈ front, q.seq ≤ pkt.sequence
  after : ∀ q ∈ back, pkt.sequence < q.seq
  start : pkt.sequence ≤ sequence
  stop : sequence + dataLength = pkt.stop
  free : ∀ q ∈ front, q.stop ≤ sequence
  bytes : ∀ k, data k = pkt.data (sequence - pkt.sequence + k)
  carried : ∀ x, pkt.sequence ≤ x → x < sequence →
    Segments.Covers TsegQent.seq TsegQent.stop front x
  nonempty : 0 < pkt.dataLength → 0 < dataLength

/-- The entry with a packet in its place. -/
def TsegQent.replacedBy (p : TsegQent) (pkt : TcpPacket) : TsegQent :=
  { p with
    seq := pkt.sequence % 2 ^ 32
    ackNum := pkt.ackNum % 2 ^ 32
    data := pkt.data
    dataLen := pkt.dataLength }

/-- The entry for a part of a packet. -/
def TcpPacket.entry (pkt : TcpPacket) (sequence : Nat) (data : Nat → UInt8)
    (dataLength nxtSeq : Nat) : TsegQent where
  seq := sequence % 2 ^ 32
  ackNum := pkt.ackNum % 2 ^ 32
  nxtSeq := nxtSeq
  data := data
  dataLen := dataLength
  direction := pkt.direction

/-- `tsegqeLen` is the length of `queue` if the counted length of the flow was
right before. -/
def TcpFlowData.Counts (flowData : TcpFlowData) (tsegqeLen : Nat)
    (queue : List TsegQent) : Prop :=
  flowData.tsegqeLen = flowData.head.length →
    flowData.head.length < 2 ^ 31 → tsegqeLen = queue.length

/-- The entry behind which the packet would be put. -/
def preceding (flowData : TcpFlowData) (pkt : TcpPacket) : Option TsegQent :=
  (flowData.head.takeWhile fun q => !seqGt q.seq pkt.sequence).getLast?

/-- The 64K check against the preceding entry. -/
def isTooFar (flowData : TcpFlowData) (pkt : TcpPacket) : Bool :=
  (preceding flowData pkt).any fun p => seqWindow < sub64 pkt.sequence p.seq

/-- How the queueing part of `reass_tcp` ends within a window, up to the place of
the segment. -/
inductive QueueCase (disorderDepth : Nat) (flowData : TcpFlowData)
    (pkt : TcpPacket) :
    ReassOutcome × TcpFlowData × List TsegQent → Prop
  | tooFar (hfar : isTooFar flowData pkt = true) :
      QueueCase disorderDepth flowData pkt (.tooFar, flowData, [])
  | duplicate {front back : List TsegQent} {p : TsegQent}
      (hhead : flowData.head = front ++ p :: back)
      (hseq : p.seq ≤ pkt.sequence) (hstop : pkt.stop < p.stop) :
      QueueCase disorderDepth flowData pkt (.duplicate, flowData, [])
  | replace {front back : List TsegQent} {p : TsegQent}
      (hnear : isTooFar flowData pkt = false)
      (hhead : flowData.head = front ++ p :: back)
      (hseq : p.seq ≤ pkt.sequence) (hover : pkt.sequence < p.stop)
      (hstop : p.stop = pkt.stop) :
      QueueCase disorderDepth flowData pkt
        (.replace, { flowData with
          head := front ++ p.replacedBy pkt :: back }, [])
  | placed {front back : List TsegQent} {sequence dataLength : Nat}
      {data : Nat → UInt8} (hnear : isTooFar flowData pkt = false)
      (hplace : Placement flowData.head pkt front back sequence data
        dataLength) :
      QueueCase disorderDepth flowData pkt (placeSegment disorderDepth
        flowData pkt front back sequence data dataLength)

/-- Everything the queueing part of `reass_tcp` can do within a window. -/
inductive QueueStep (disorderDepth : Nat) (flowData : TcpFlowData)
    (pkt : TcpPacket) :
    ReassOutcome × TcpFlowData × List TsegQent → Prop
  | tooFar : QueueStep disorderDepth flowData pkt (.tooFar, flowData, [])
  | duplicate {front back : List TsegQent} {p : TsegQent}
      (hhead : flowData.head = front ++ p :: back)
      (hseq : p.seq ≤ pkt.sequence) (hstop : pkt.stop < p.stop) :
      QueueStep disorderDepth flowData pkt (.duplicate, flowData, [])
  | replace {front back : List TsegQent} {p : TsegQent}
      (hhead : flowData.head = front ++ p :: back)
      (hseq : p.seq ≤ pkt.sequence) (hover : pkt.sequence < p.stop)
      (hstop : p.stop = pkt.stop) :
      QueueStep disorderDepth flowData pkt
        (.replace, { flowData with
          head := front ++ p.replacedBy pkt :: back }, [])
  | syn {front back : List TsegQent}
      {sequence dataLength rcvNxt tsegqeLen : Nat}
      {data : Nat → UInt8} (hsyn : pkt.has thSyn = true)
      (hplace : Placement flowData.head pkt front back sequence data
        dataLength)
      (hcount : flowData.Counts tsegqeLen
        (front ++ cutBefore pkt.stop back)) :
      QueueStep disorderDepth flowData pkt
        (.syn, { flowData with
          rcvNxt := rcvNxt
          head := front ++ cutBefore pkt.stop back
          tsegqeLen := tsegqeLen }, [])
  | flush {front back : List TsegQent} {sequence dataLength nxtSeq : Nat}
      {data : Nat → UInt8} (hsyn : pkt.has thSyn = false)
      (hplace : Placement flowData.head pkt front back sequence data
        dataLength) :
      QueueStep disorderDepth flowData pkt
        (.flush, { flowData with rcvNxt := 0, head := [], tsegqeLen := 0 },
          front ++ pkt.entry sequence data dataLength nxtSeq ::
            cutBefore pkt.stop back)
  | queued {front back : List TsegQent}
      {sequence dataLength nxtSeq rcvNxt tsegqeLen : Nat}
      {data : Nat → UInt8} (hsyn : pkt.has thSyn = false)
      (hplace : Placement flowData.head pkt front back sequence data
        dataLength)
      (hcount : flowData.Counts tsegqeLen (front ++
        pkt.entry sequence data dataLength nxtSeq ::
          cutBefore pkt.stop back))
      (hlen : tsegqeLen < disorderDepth) :
      QueueStep disorderDepth flowData pkt
        (.queued, { flowData with
          rcvNxt := rcvNxt
          head := front ++ pkt.entry sequence data dataLength nxtSeq ::
            cutBefore pkt.stop back
          tsegqeLen := tsegqeLen }, [])

section Step

variable {window : SeqWindow} {flowData : TcpFlowData} {pkt : TcpPacket}
  (hqueue : window.Queue flowData.head) (hadmits : window.Admits pkt)

include hqueue hadmits

theorem placeSegment_step (disorderDepth : Nat) {front back : List TsegQent}
    {sequence dataLength : Nat} {data : Nat → UInt8}
    (hplace : Placement flowData.head pkt front back sequence data
      dataLength) :
    QueueStep disorderDepth flowData pkt (placeSegment disorderDepth flowData
      pkt front back sequence data dataLength) := by
  have hbelow := window.below
  have hstop : add64 sequence dataLength = pkt.stop := by
    have hhi := hadmits.hi
    have heq := hplace.stop
    rw [add64_eq]
    · exact heq
    · simp only [TcpPacket.stop] at heq
      omega
  have hback : window.Queue back :=
    hqueue.sublist (hplace.split ▸ List.sublist_append_right front back)
  have hlo : window.lo ≤ pkt.stop :=
    Nat.le_trans hadmits.lo (Nat.le_add_right _ _)
  have htrim := trimSucceeding_fst hlo hadmits.hi hback flowData.tsegqeLen
  have hcounts : flowData.Counts
      (trimSucceeding pkt.stop back flowData.tsegqeLen).2
      (front ++ cutBefore pkt.stop back) := by
    intro hlen hmax
    rw [hplace.split, List.length_append] at hlen hmax
    have hcount := trimSucceeding_snd pkt.stop back
      (by omega : back.length ≤ flowData.tsegqeLen) (by omega)
    rw [htrim] at hcount
    rw [List.length_append]
    omega
  simp only [placeSegment, hstop, htrim]
  cases hsyn : pkt.has thSyn with
  | true => exact .syn hsyn hplace hcounts
  | false =>
      simp only [Bool.false_eq_true, if_false]
      have hnext : flowData.Counts
          (((trimSucceeding pkt.stop back flowData.tsegqeLen).2 + 1) % 2 ^ 32)
          (front ++ pkt.entry sequence data dataLength pkt.stop ::
            cutBefore pkt.stop back) := by
        intro hlen hmax
        have hcut := length_cutBefore_le pkt.stop back
        rw [hcounts hlen hmax]
        rw [hplace.split] at hmax
        simp only [List.length_append, List.length_cons] at hmax ⊢
        omega
      generalize (if front ++ cutBefore pkt.stop back = [] then pkt.stop
        else flowData.rcvNxt) = rcvNxt
      split
      · exact .flush hsyn hplace
      · split
        · exact .queued hsyn hplace hnext (Nat.not_le.mp ‹_›)
        · exact .queued hsyn hplace hnext (Nat.not_le.mp ‹_›)

/-- The queueing part ends in one of these ways. -/
theorem queueSegment_case (disorderDepth : Nat) :
    QueueCase disorderDepth flowData pkt
      (queueSegment disorderDepth flowData pkt) := by
  obtain ⟨front, back, hspan, hsplit, hbefore, hafter⟩ := span_seqGt hqueue
    hadmits.lo (Nat.le_trans (Nat.le_add_right _ _) hadmits.hi)
  have hfar : isTooFar flowData pkt = front.getLast?.any fun p =>
      seqWindow < sub64 pkt.sequence p.seq := by
    rw [List.span_eq_takeWhile_dropWhile] at hspan
    rw [isTooFar, preceding, (Prod.mk.inj hspan).1]
  simp only [queueSegment, hspan, ← hfar]
  split
  · exact .tooFar ‹_›
  · have hnear : isTooFar flowData pkt = false := Bool.eq_false_iff.mpr ‹_›
    rcases List.eq_nil_or_concat front with rfl | ⟨init, p, rfl⟩
    · simp only [List.getLast?_nil, precedingOverlap]
      refine .placed hnear ?_
      exact ⟨hsplit, hbefore, hafter, Nat.le_refl _, rfl, by simp, by simp,
        fun x hle hlt => absurd hle (Nat.not_le.mpr hlt), id⟩
    · have hp : p ∈ init ++ [p] := by simp
      have hordered := hqueue.ordered
      rw [hsplit, List.concat_eq_append] at hordered
      obtain ⟨hfront, _, _⟩ := List.pairwise_append.mp hordered
      obtain ⟨_, _, hinit⟩ := List.pairwise_append.mp hfront
      rw [List.concat_eq_append] at hsplit hbefore
      have hholds : window.Holds p :=
        hqueue.inside p (hsplit ▸ List.mem_append_left back hp)
      have hstop : p.stop = p.seq + p.dataLen := rfl
      have hfree : ∀ q ∈ init, q.stop ≤ p.seq := fun q hq =>
        hinit q hq p (by simp)
      simp only [List.concat_eq_append, List.getLast?_concat,
        precedingOverlap_some hholds pkt.data (hbefore p hp) hadmits.hi]
      have hhead : flowData.head = init ++ p :: back := by
        rw [hsplit, List.append_assoc, List.singleton_append]
      by_cases hapart : p.stop ≤ pkt.sequence
      · rw [if_pos hapart]
        refine .placed hnear ?_
        refine ⟨hsplit, hbefore, hafter, Nat.le_refl _, rfl, ?_, by simp,
          fun x hle hlt => absurd hle (Nat.not_le.mpr hlt), id⟩
        intro q hq
        rcases List.mem_append.mp hq with hq | hq
        · have hle := hfree q hq
          omega
        · exact (List.mem_singleton.mp hq) ▸ hapart
      · rw [if_neg hapart]
        by_cases hinside : pkt.sequence + pkt.dataLength < p.stop
        · rw [if_pos hinside]
          exact .duplicate hhead (hbefore p hp) hinside
        · rw [if_neg hinside]
          by_cases hequal : p.stop = pkt.sequence + pkt.dataLength
          · rw [if_pos hequal]
            simp only [List.dropLast_concat, Option.map_some,
              Option.toList_some, List.append_assoc, List.singleton_append]
            exact .replace hnear hhead (hbefore p hp) (Nat.not_le.mp hapart) hequal
          · rw [if_neg hequal]
            refine .placed hnear ?_
            refine ⟨hsplit, hbefore, hafter, by omega, ?_, ?_, fun _ => rfl,
              ?_, fun _ => by omega⟩
            · simp only [TcpPacket.stop]
              omega
            · intro q hq
              rcases List.mem_append.mp hq with hq | hq
              · have hle := hfree q hq
                omega
              · exact (List.mem_singleton.mp hq) ▸ Nat.le_refl _
            · intro x hle hlt
              have hseq := hbefore p hp
              exact ⟨p, hp, by omega, hlt⟩

/-- The queueing part takes one of these steps. -/
theorem queueSegment_step (disorderDepth : Nat) :
    QueueStep disorderDepth flowData pkt
      (queueSegment disorderDepth flowData pkt) := by
  have hcase := queueSegment_case hqueue hadmits disorderDepth
  generalize queueSegment disorderDepth flowData pkt = result at hcase ⊢
  cases hcase with
  | tooFar => exact .tooFar
  | duplicate hhead hseq hstop => exact .duplicate hhead hseq hstop
  | replace _ hhead hseq hover hstop => exact .replace hhead hseq hover hstop
  | placed _ hplace => exact placeSegment_step hqueue hadmits disorderDepth hplace

end Step

section Entries

variable {window : SeqWindow} {pkt : TcpPacket} (hadmits : window.Admits pkt)

include hadmits

theorem TsegQent.replacedBy_seq {p : TsegQent} (hover : pkt.sequence < p.stop)
    (hstop : p.stop = pkt.stop) : (p.replacedBy pkt).seq = pkt.sequence := by
  have hbelow := window.below
  have hhi : pkt.stop ≤ window.hi := hadmits.hi
  exact Nat.mod_eq_of_lt (by omega)

theorem TsegQent.replacedBy_stop {p : TsegQent}
    (hover : pkt.sequence < p.stop) (hstop : p.stop = pkt.stop) :
    (p.replacedBy pkt).stop = pkt.stop := by
  rw [TsegQent.stop, TsegQent.replacedBy_seq hadmits hover hstop]
  rfl

variable {queue front back : List TsegQent} {sequence dataLength : Nat}
  {data : Nat → UInt8}
  (hplace : Placement queue pkt front back sequence data dataLength)

include hplace

/-- A part at the very end of the window may be empty and would start behind
the last sequence number. -/
theorem Placement.entry_seq (hne : 0 < dataLength) (nxtSeq : Nat) :
    (pkt.entry sequence data dataLength nxtSeq).seq = sequence := by
  have hbelow := window.below
  have hhi : pkt.stop ≤ window.hi := hadmits.hi
  have hstop := hplace.stop
  exact Nat.mod_eq_of_lt (by omega)

theorem Placement.entry_stop (hne : 0 < dataLength) (nxtSeq : Nat) :
    (pkt.entry sequence data dataLength nxtSeq).stop = pkt.stop := by
  rw [TsegQent.stop, hplace.entry_seq hadmits hne]
  exact hplace.stop

end Entries

end Barley
