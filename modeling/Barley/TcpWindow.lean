/-
Reassembly within one sequence window.  As long as the numbers of a flow stay
within half of the sequence space and below its end, the modular comparisons
of the code are comparisons of positions, and its overlap cases are the plain
ones.
-/
import Barley.TcpReassembly
import Mathlib.Data.List.TakeDrop
import Mathlib.Data.List.TakeWhile

namespace Barley

theorem seqGt_iff {a b : Nat} (hlt : a < b + 2 ^ 31) (hle : b ≤ a + 2 ^ 31) :
    seqGt a b = true ↔ b < a := by
  rw [seqGt, toInt_sub64 hlt hle, decide_eq_true_eq]
  omega

/-- The position behind the last byte of an entry. -/
def TsegQent.stop (q : TsegQent) : Nat := q.seq + q.dataLen

/-- A window of sequence numbers, shorter than half of the sequence space and
not crossing its end. -/
structure SeqWindow where
  lo : Nat
  hi : Nat
  short : hi < lo + 2 ^ 31
  below : hi ≤ 2 ^ 32

/-- The byte range of an entry lies in the window. -/
def SeqWindow.Holds (window : SeqWindow) (q : TsegQent) : Prop :=
  window.lo ≤ q.seq ∧ q.stop ≤ window.hi

/-- The byte range of a packet lies in the window. -/
structure SeqWindow.Admits (window : SeqWindow) (pkt : TcpPacket) : Prop where
  lo : window.lo ≤ pkt.sequence
  hi : pkt.sequence + pkt.dataLength ≤ window.hi

/-- The entries, each of them in the window, in order and without overlap. -/
structure SeqWindow.Queue (window : SeqWindow) (queue : List TsegQent) :
    Prop where
  ordered : Segments.Ordered TsegQent.seq TsegQent.stop queue
  inside : ∀ q ∈ queue, window.Holds q

theorem SeqWindow.Queue.sublist {window : SeqWindow}
    {queue other : List TsegQent} (h : window.Queue queue)
    (hsub : other.Sublist queue) : window.Queue other :=
  ⟨List.Pairwise.sublist hsub h.ordered,
    fun q hq => h.inside q (hsub.subset hq)⟩

/-- What `trim_succeeding` computes within a window. -/
def cutBefore (stop : Nat) : List TsegQent → List TsegQent
  | [] => []
  | q :: rest =>
      if stop ≤ q.seq then q :: rest
      else if stop < q.stop then
        { q with
          seq := stop
          data := fun k => q.data (stop - q.seq + k)
          dataLen := q.stop - stop } :: rest
      else cutBefore stop rest

section Window

variable {window : SeqWindow}

theorem trimSucceeding_fst {stop : Nat} (hlo : window.lo ≤ stop)
    (hhi : stop ≤ window.hi) {back : List TsegQent}
    (hback : window.Queue back) (tsegqeLen : Nat) :
    (trimSucceeding stop back tsegqeLen).1 = cutBefore stop back := by
  have hshort := window.short
  have hbelow := window.below
  induction back generalizing tsegqeLen with
  | nil => rfl
  | cons q rest ih =>
      obtain ⟨hqlo, hqhi⟩ := hback.inside q List.mem_cons_self
      have hstop : q.stop = q.seq + q.dataLen := rfl
      have hi : toInt (sub64 stop q.seq) = (stop : Int) - q.seq :=
        toInt_sub64 (by omega) (by omega)
      have hdata : toInt q.dataLen = q.dataLen := toInt_eq (by omega)
      simp only [trimSucceeding, cutBefore, hi, hdata]
      by_cases hapart : stop ≤ q.seq
      · rw [if_pos (by omega), if_pos hapart]
      · rw [if_neg (by omega), if_neg hapart]
        by_cases hpart : stop < q.stop
        · have hnat : ((stop : Int) - q.seq).toNat = stop - q.seq := by omega
          have hseq : (q.seq + (stop - q.seq)) % 2 ^ 32 = stop := by omega
          have hsub : sub64 q.dataLen (stop - q.seq) = q.stop - stop := by
            rw [sub64_eq (by omega) (by omega)]
            omega
          rw [if_pos (by omega), if_pos hpart]
          simp only [hnat, hseq, hsub]
        · rw [if_neg (by omega), if_neg hpart]
          exact ih (hback.sublist (List.sublist_cons_self q rest))
            (dec32 tsegqeLen)

end Window

/-- The counted length goes down with the list. -/
theorem trimSucceeding_snd (stop : Nat) (back : List TsegQent)
    {tsegqeLen : Nat} (hlen : back.length ≤ tsegqeLen)
    (hmax : tsegqeLen < 2 ^ 32) :
    (trimSucceeding stop back tsegqeLen).2 + back.length =
      tsegqeLen + (trimSucceeding stop back tsegqeLen).1.length := by
  induction back generalizing tsegqeLen with
  | nil => rfl
  | cons q rest ih =>
      rw [List.length_cons] at hlen
      simp only [trimSucceeding]
      split
      · rfl
      · split
        · rfl
        · have hdec := dec32_eq (by omega) hmax
          have hcount := ih (by omega : rest.length ≤ dec32 tsegqeLen)
            (by omega)
          rw [List.length_cons]
          omega

section Window

variable {window : SeqWindow}

/-- Cutting keeps the order and leaves nothing before `stop`. -/
theorem cutBefore_queue {stop : Nat} (hlo : window.lo ≤ stop)
    {back : List TsegQent} (hback : window.Queue back) :
    window.Queue (cutBefore stop back) ∧
      ∀ q ∈ cutBefore stop back, stop ≤ q.seq := by
  induction back with
  | nil => exact ⟨hback, by simp [cutBefore]⟩
  | cons q rest ih =>
      obtain ⟨hfirst, hrest⟩ := List.pairwise_cons.mp hback.ordered
      have hinside := hback.inside q List.mem_cons_self
      have hqstop : q.seq ≤ q.stop := Nat.le_add_right _ _
      simp only [cutBefore]
      by_cases hapart : stop ≤ q.seq
      · rw [if_pos hapart]
        refine ⟨hback, fun other hmem => ?_⟩
        rcases List.mem_cons.mp hmem with rfl | hmem
        · exact hapart
        · exact Nat.le_trans hapart
            (Nat.le_trans hqstop (hfirst other hmem))
      · rw [if_neg hapart]
        by_cases hpart : stop < q.stop
        · rw [if_pos hpart]
          have hstop : stop + (q.stop - stop) = q.stop := by omega
          constructor
          · constructor
            · refine List.pairwise_cons.mpr ⟨fun other hmem => ?_, hrest⟩
              simp only [TsegQent.stop] at hstop ⊢
              rw [hstop]
              exact hfirst other hmem
            · intro other hmem
              rcases List.mem_cons.mp hmem with rfl | hmem
              · refine ⟨hlo, ?_⟩
                show stop + (q.stop - stop) ≤ window.hi
                rw [hstop]
                exact hinside.2
              · exact hback.inside other (List.mem_cons_of_mem q hmem)
          · intro other hmem
            rcases List.mem_cons.mp hmem with rfl | hmem
            · exact Nat.le_refl stop
            · exact Nat.le_trans (Nat.le_of_lt hpart) (hfirst other hmem)
        · rw [if_neg hpart]
          exact ih (hback.sublist (List.sublist_cons_self q rest))

theorem cutBefore_proper (stop : Nat) {back : List TsegQent}
    (hback : Segments.Proper TsegQent.seq TsegQent.stop back) :
    Segments.Proper TsegQent.seq TsegQent.stop (cutBefore stop back) := by
  induction back with
  | nil => exact hback
  | cons q rest ih =>
      simp only [cutBefore]
      by_cases hapart : stop ≤ q.seq
      · rw [if_pos hapart]
        exact hback
      · rw [if_neg hapart]
        have hrest := hback.sublist (List.sublist_cons_self q rest)
        by_cases hpart : stop < q.stop
        · rw [if_pos hpart]
          intro other hmem
          rcases List.mem_cons.mp hmem with rfl | hmem
          · show stop < stop + (q.stop - stop)
            omega
          · exact hrest other hmem
        · rw [if_neg hpart]
          exact ih hrest

theorem length_cutBefore_le (stop : Nat) (back : List TsegQent) :
    (cutBefore stop back).length ≤ back.length := by
  induction back with
  | nil => exact Nat.le_refl _
  | cons q rest ih =>
      simp only [cutBefore]
      split
      · exact Nat.le_refl _
      · split
        · exact Nat.le_refl _
        · exact Nat.le_succ_of_le ih

/-- The search stops at the first entry that starts after the packet. -/
theorem span_seqGt {queue : List TsegQent} (hqueue : window.Queue queue)
    {sequence : Nat} (hlo : window.lo ≤ sequence)
    (hhi : sequence ≤ window.hi) :
    ∃ front back, queue.span (fun q => !seqGt q.seq sequence) =
        (front, back) ∧ queue = front ++ back ∧
      (∀ q ∈ front, q.seq ≤ sequence) ∧ ∀ q ∈ back, sequence < q.seq := by
  have hshort := window.short
  have hgt : ∀ q ∈ queue, (seqGt q.seq sequence = true ↔ sequence < q.seq) := by
    intro q hq
    obtain ⟨hqlo, hqhi⟩ := hqueue.inside q hq
    simp only [TsegQent.stop] at hqhi
    exact seqGt_iff (by omega) (by omega)
  refine ⟨_, _, List.span_eq_takeWhile_dropWhile _ _,
    List.takeWhile_append_dropWhile.symm, ?_, ?_⟩
  · intro q hq
    have hfalse := List.mem_takeWhile_imp hq
    have hmem := (List.takeWhile_sublist _).subset hq
    rw [Bool.not_eq_true', Bool.eq_false_iff, ne_eq, hgt q hmem] at hfalse
    exact Nat.not_lt.mp hfalse
  · intro q hq
    cases hback : queue.dropWhile fun q => !seqGt q.seq sequence with
    | nil =>
        rw [hback] at hq
        simp at hq
    | cons first rest =>
        have hfirst : sequence < first.seq := by
          have hmem : first ∈ queue :=
            (List.dropWhile_sublist _).subset (hback ▸ List.mem_cons_self)
          have hnot := List.head_dropWhile_not
            (fun q => !seqGt q.seq sequence) (l := queue) (by simp [hback])
          simp only [hback, List.head_cons, Bool.not_eq_false'] at hnot
          exact (hgt first hmem).mp hnot
        rw [hback] at hq
        rcases List.mem_cons.mp hq with rfl | hq
        · exact hfirst
        · have hordered := hqueue.ordered.sublist
            (List.dropWhile_sublist fun q => !seqGt q.seq sequence)
          rw [hback] at hordered
          have hnext := (List.pairwise_cons.mp hordered).1 q hq
          exact Nat.lt_of_lt_of_le hfirst
            (Nat.le_trans (Nat.le_add_right _ _) hnext)

/-- The four cases of a preceding entry, in positions. -/
theorem precedingOverlap_some {p : TsegQent} (hp : window.Holds p)
    {sequence dataLength : Nat} (data : Nat → UInt8)
    (hseq : p.seq ≤ sequence) (hhi : sequence + dataLength ≤ window.hi) :
    precedingOverlap (some p) sequence data dataLength =
      if p.stop ≤ sequence then .rest sequence data dataLength
      else if sequence + dataLength < p.stop then .duplicate
      else if p.stop = sequence + dataLength then .replace
      else .rest p.stop (fun k => data (p.stop - sequence + k))
        (sequence + dataLength - p.stop) := by
  have hshort := window.short
  have hbelow := window.below
  obtain ⟨hplo, hphi⟩ := hp
  have hstop : p.stop = p.seq + p.dataLen := rfl
  have hadd : add64 p.seq p.dataLen = p.stop := add64_eq (by omega)
  have hi : toInt (sub64 p.stop sequence) = (p.stop : Int) - sequence :=
    toInt_sub64 (by omega) (by omega)
  have hdata : toInt dataLength = dataLength := toInt_eq (by omega)
  simp only [precedingOverlap, hadd, hi, hdata]
  by_cases hapart : p.stop ≤ sequence
  · rw [if_neg (by omega), if_pos hapart]
  · rw [if_pos (by omega), if_neg hapart]
    by_cases hinside : sequence + dataLength < p.stop
    · rw [if_pos (by omega), if_pos hinside]
    · rw [if_neg (by omega), if_neg hinside]
      by_cases hequal : p.stop = sequence + dataLength
      · rw [if_pos (by omega), if_pos hequal]
      · have hnat : ((p.stop : Int) - sequence).toNat =
            p.stop - sequence := by omega
        rw [if_neg (by omega), if_neg hequal, hnat, add64_eq (by omega),
          sub64_eq (by omega) (by omega)]
        congr 1
        · omega
        · omega

end Window

end Barley
