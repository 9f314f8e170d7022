/-
What posting session cells returns.  A batch that cannot be sent holds pointers
of the cell being posted and, often, of cells that have been counted already;
only in the first case are the count and the addresses right.
-/
import Barley.SsnFifo
import Mathlib.Data.List.Nodup

namespace Barley

section Pieces

variable (lim : DmaLimits) (fifo : SsnFifo)

/-- The pointers a cell needs. -/
def SsnFifo.pieces (cur : Nat) : List SsnPointer :=
  match (fifo.cell lim cur).type with
  | .dmaHead => [fifo.headPointer lim cur]
  | .dmaPayload => [fifo.payloadPointer lim cur, fifo.infoPointer lim cur]
  | _ => []

/-- The cell is of one of the two types that are posted. -/
def SsnFifo.Known (cur : Nat) : Prop :=
  (fifo.cell lim cur).type = .dmaHead ∨ (fifo.cell lim cur).type = .dmaPayload

instance (cur : Nat) : Decidable (fifo.Known lim cur) :=
  inferInstanceAs (Decidable (_ ∨ _))

/-- The pointers of the first `count` cells. -/
def SsnFifo.pointers (count : Nat) : List SsnPointer :=
  (List.range count).flatMap (fifo.pieces lim)

/-- The addresses of the head cells among the first `count`. -/
def SsnFifo.headAddrs (count : Nat) : List Nat :=
  ((List.range count).filter fun cur =>
    (fifo.cell lim cur).type = .dmaHead).map fun cur =>
      (fifo.cell lim cur).blockAddr

/-- The count and the addresses are right: the cells that are counted have
been sent, and the addresses are those of the head cells among them. -/
structure SsnPosted.Right (posted : SsnPosted) : Prop where
  sent : ∀ cur < posted.pktPosted, ∀ pointer ∈ fifo.pieces lim cur,
    pointer ∈ posted.written
  addresses : posted.blockAddr = fifo.headAddrs lim posted.pktPosted

/-- Batch `batch` is the first that fails. -/
def FirstFailure (scatter : Nat → Bool) (batch : Nat) : Prop :=
  (∀ earlier < batch, scatter earlier = true) ∧ scatter batch = false

/-- Every batch of the first `count` cells can be sent. -/
def SsnFifo.AllSent (scatter : Nat → Bool) (count : Nat) : Prop :=
  ∀ batch, batch * lim.pointers < (fifo.pointers lim count).length →
    scatter batch = true

/-- Nothing goes wrong, or nothing is pending that has been counted: a cell of
unknown type is met right after a batch; the batch that fails is filled by the
cell being posted, with its own pointers only; or it is the rest at the end and
holds only pointers of the last cell, which is no head. -/
def SsnFifo.PostSafe (scatter : Nat → Bool) (localNum : Nat) : Prop :=
  ((∀ cur < localNum, fifo.Known lim cur) ∧
      fifo.AllSent lim scatter localNum) ∨
    (∃ cur < localNum, (∀ earlier < cur, fifo.Known lim earlier) ∧
      ¬ fifo.Known lim cur ∧
      lim.pointers ∣ (fifo.pointers lim cur).length ∧
      fifo.AllSent lim scatter cur) ∨
    (∃ cur < localNum, ∃ batch, (∀ earlier ≤ cur, fifo.Known lim earlier) ∧
      FirstFailure scatter batch ∧
      (fifo.pointers lim cur).length ≤ batch * lim.pointers ∧
      (batch + 1) * lim.pointers ≤ (fifo.pointers lim (cur + 1)).length) ∨
    ∃ cur batch, localNum = cur + 1 ∧
      (∀ earlier ≤ cur, fifo.Known lim earlier) ∧
      FirstFailure scatter batch ∧
      (fifo.pointers lim cur).length ≤ batch * lim.pointers ∧
      batch * lim.pointers < (fifo.pointers lim localNum).length ∧
      (fifo.pointers lim localNum).length < (batch + 1) * lim.pointers ∧
      (fifo.cell lim cur).type = .dmaPayload

theorem pointers_succ (count : Nat) :
    fifo.pointers lim (count + 1) =
      fifo.pointers lim count ++ fifo.pieces lim count := by
  simp [SsnFifo.pointers, List.range_succ]

theorem headAddrs_succ (count : Nat) :
    fifo.headAddrs lim (count + 1) = fifo.headAddrs lim count ++
      if (fifo.cell lim count).type = .dmaHead then
        [(fifo.cell lim count).blockAddr]
      else [] := by
  by_cases hhead : (fifo.cell lim count).type = .dmaHead
  · simp [SsnFifo.headAddrs, List.range_succ, hhead]
  · simp [SsnFifo.headAddrs, List.range_succ, hhead]

theorem pieces_cur {cur : Nat} {pointer : SsnPointer}
    (h : pointer ∈ fifo.pieces lim cur) : pointer.cur = cur := by
  unfold SsnFifo.pieces at h
  split at h
  · rw [List.mem_singleton.mp h]
    rfl
  · rcases List.mem_cons.mp h with rfl | h
    · rfl
    · rw [List.mem_singleton.mp h]
      rfl
  · cases h

theorem pieces_nodup (cur : Nat) : (fifo.pieces lim cur).Nodup := by
  unfold SsnFifo.pieces
  split
  · exact List.nodup_singleton _
  · refine List.nodup_cons.mpr ⟨fun h => ?_, List.nodup_singleton _⟩
    have heq := congrArg SsnPointer.part (List.mem_singleton.mp h)
    cases heq
  · exact List.nodup_nil

/-- No pointer occurs twice. -/
theorem pointers_nodup (count : Nat) : (fifo.pointers lim count).Nodup := by
  rw [SsnFifo.pointers, List.nodup_flatMap]
  refine ⟨fun cur _ => pieces_nodup lim fifo cur, ?_⟩
  refine List.Pairwise.imp ?_ (List.nodup_range (n := count))
  intro first second hne pointer hfirst hsecond
  exact hne ((pieces_cur lim fifo hfirst).symm.trans
    (pieces_cur lim fifo hsecond))

theorem mem_pointers {count : Nat} {pointer : SsnPointer} :
    pointer ∈ fifo.pointers lim count ↔
      ∃ cur < count, pointer ∈ fifo.pieces lim cur := by
  simp [SsnFifo.pointers]

theorem length_pointers_le {first second : Nat} (h : first ≤ second) :
    (fifo.pointers lim first).length ≤ (fifo.pointers lim second).length := by
  induction second, h using Nat.le_induction with
  | base => exact Nat.le_refl _
  | succ second _ ih =>
      rw [pointers_succ, List.length_append]
      exact Nat.le_trans ih (Nat.le_add_right _ _)

theorem pieces_ne_nil {cur : Nat} (h : fifo.Known lim cur) :
    fifo.pieces lim cur ≠ [] := by
  unfold SsnFifo.pieces
  rcases h with h | h
  · rw [h]
    exact List.cons_ne_nil _ _
  · rw [h]
    exact List.cons_ne_nil _ _

end Pieces

section Loop

variable {lim : DmaLimits} {fifo : SsnFifo} {scatter : Nat → Bool}

/-- The state at the head of the loop. -/
structure SsnPostState.AtCell (lim : DmaLimits) (fifo : SsnFifo)
    (scatter : Nat → Bool) (s : SsnPostState) (cur : Nat) : Prop where
  taken : Batches.Holds lim.pointers scatter (fifo.pointers lim cur) s.dma
  room : s.dma.pending.length < lim.pointers
  addresses : s.address = fifo.headAddrs lim cur

/-- One round: the cell is taken, or it is of unknown type, or it fills a batch
that cannot be sent. -/
theorem ssnPostCell_cases {s : SsnPostState} {cur : Nat}
    (h : s.AtCell lim fifo scatter cur) :
    (∃ next, ssnPostCell lim fifo scatter cur s = .ok next ∧
      fifo.Known lim cur ∧ next.AtCell lim fifo scatter (cur + 1)) ∨
    (ssnPostCell lim fifo scatter cur s = .error s ∧
      ¬ fifo.Known lim cur) ∨
    ∃ next filled, ssnPostCell lim fifo scatter cur s = .error next ∧
      fifo.Known lim cur ∧ filled ≠ [] ∧
      filled <+: fifo.pieces lim cur ∧
      Batches.Failed lim.pointers scatter
        (fifo.pointers lim cur ++ filled) next.dma ∧
      next.dma.pending.length = lim.pointers ∧
      next.address = fifo.headAddrs lim cur := by
  rw [ssnPostCell]
  cases htype : (fifo.cell lim cur).type with
  | dmaHead =>
      have hpieces : fifo.pieces lim cur = [fifo.headPointer lim cur] := by
        rw [SsnFifo.pieces, htype]
      rcases Batches.queue_cases h.taken h.room (fifo.headPointer lim cur) with
        ⟨next, heq, hnext, hroom⟩ | ⟨next, heq, hfailed, hfull⟩
      · refine .inl ⟨⟨next, s.address ++ [(fifo.cell lim cur).blockAddr]⟩,
          by simp only [heq], .inl htype, ⟨?_, hroom, ?_⟩⟩
        · rw [pointers_succ, hpieces]
          exact hnext
        · rw [headAddrs_succ, if_pos htype, h.addresses]
      · refine .inr (.inr ⟨{ s with dma := next },
          [fifo.headPointer lim cur], by simp only [heq], .inl htype,
          List.cons_ne_nil _ _, ?_, hfailed, hfull, h.addresses⟩)
        exact hpieces ▸ List.prefix_refl _
  | dmaPayload =>
      have hpieces : fifo.pieces lim cur =
          [fifo.payloadPointer lim cur, fifo.infoPointer lim cur] := by
        rw [SsnFifo.pieces, htype]
      have hnothead : (fifo.cell lim cur).type ≠ .dmaHead := by
        rw [htype]
        exact fun hhead => nomatch hhead
      rcases Batches.queue_cases h.taken h.room
          (fifo.payloadPointer lim cur) with
        ⟨first, heq, hfirst, hroom⟩ | ⟨next, heq, hfailed, hfull⟩
      · rcases Batches.queue_cases hfirst hroom (fifo.infoPointer lim cur) with
          ⟨next, heq', hnext, hroom'⟩ | ⟨next, heq', hfailed, hfull⟩
        · refine .inl ⟨{ s with dma := next }, by simp only [heq, heq'],
            .inr htype, ⟨?_, hroom', ?_⟩⟩
          · rw [pointers_succ, hpieces]
            rwa [List.append_assoc] at hnext
          · rw [headAddrs_succ, if_neg hnothead, List.append_nil]
            exact h.addresses
        · refine .inr (.inr ⟨{ s with dma := next }, fifo.pieces lim cur,
            by simp only [heq, heq'], .inr htype, ?_, List.prefix_refl _, ?_,
            hfull, h.addresses⟩)
          · exact pieces_ne_nil lim fifo (.inr htype)
          · rw [hpieces]
            rwa [List.append_assoc] at hfailed
      · refine .inr (.inr ⟨{ s with dma := next },
          [fifo.payloadPointer lim cur], by simp only [heq], .inr htype,
          List.cons_ne_nil _ _, ?_, hfailed, hfull, h.addresses⟩)
        rw [hpieces]
        exact ⟨[fifo.infoPointer lim cur], rfl⟩
  | resv =>
      refine .inr (.inl ⟨rfl, ?_⟩)
      simp [SsnFifo.Known, htype]
  | dmaMax =>
      refine .inr (.inl ⟨rfl, ?_⟩)
      simp [SsnFifo.Known, htype]

/-- How the loop over `count` cells may end. -/
inductive SsnPosted.Outcome (lim : DmaLimits) (fifo : SsnFifo)
    (scatter : Nat → Bool) (count : Nat) (posted : Nat × SsnPostState) :
    Prop where
  | done (known : ∀ cur < count, fifo.Known lim cur)
      (sent : fifo.AllSent lim scatter count) (all : posted.1 = count)
      (written : posted.2.dma.written = fifo.pointers lim count)
      (addresses : posted.2.address = fifo.headAddrs lim count)
  | unknown (lt : posted.1 < count)
      (known : ∀ cur < posted.1, fifo.Known lim cur)
      (unknown : ¬ fifo.Known lim posted.1)
      (at_cell : posted.2.AtCell lim fifo scatter posted.1)
  | full (filled : List SsnPointer) (lt : posted.1 < count)
      (known : ∀ cur ≤ posted.1, fifo.Known lim cur) (some : filled ≠ [])
      (part : filled <+: fifo.pieces lim posted.1)
      (failed : Batches.Failed lim.pointers scatter
        (fifo.pointers lim posted.1 ++ filled) posted.2.dma)
      (fills : posted.2.dma.pending.length = lim.pointers)
      (addresses : posted.2.address = fifo.headAddrs lim posted.1)
  | last (eq : count = posted.1 + 1)
      (known : ∀ cur ≤ posted.1, fifo.Known lim cur)
      (failed : Batches.Failed lim.pointers scatter
        (fifo.pointers lim count) posted.2.dma)
      (pending : 0 < posted.2.dma.pending.length)
      (room : posted.2.dma.pending.length < lim.pointers)
      (addresses : posted.2.address = fifo.headAddrs lim count)

theorem ssnPostLoop_outcome (pktRemain : Nat) {cur : Nat} {s : SsnPostState}
    (h : s.AtCell lim fifo scatter cur)
    (hpending : pktRemain = 0 → s.dma.pending = [])
    (hknown : ∀ earlier < cur, fifo.Known lim earlier) :
    SsnPosted.Outcome lim fifo scatter (cur + pktRemain)
      (ssnPostLoop lim fifo scatter pktRemain cur s) := by
  induction pktRemain generalizing cur s with
  | zero =>
      have hempty := hpending rfl
      have hlength := h.taken.length
      rw [hempty, List.length_nil, Nat.add_zero] at hlength
      refine .done hknown ?_ rfl ?_ h.addresses
      · intro batch hbatch
        rw [Nat.add_zero, hlength] at hbatch
        exact h.taken.sent batch (Nat.lt_of_mul_lt_mul_right hbatch)
      · have hall := h.taken.all
        rw [hempty, List.append_nil] at hall
        exact hall
  | succ pktRemain ih =>
      rw [ssnPostLoop]
      rcases ssnPostCell_cases h with ⟨next, heq, hcell, hnext⟩ |
        ⟨heq, hcell⟩ | ⟨next, filled, heq, hcell, hsome, hpart, hfailed,
          hfills, haddr⟩
      · have hknown' : ∀ earlier < cur + 1, fifo.Known lim earlier := by
          intro earlier hlt
          rcases Nat.lt_succ_iff_lt_or_eq.mp hlt with hlt | rfl
          · exact hknown earlier hlt
          · exact hcell
        simp only [heq]
        split
        · -- the rest is sent
          rename_i hlast
          obtain ⟨rfl, hsome⟩ := hlast
          rcases Batches.flush_last hnext.taken with
            ⟨last, hflush, hwritten, hsent⟩ | ⟨hflush, hfailed⟩
          · simp only [hflush]
            refine .done hknown' ?_ rfl hwritten hnext.addresses
            intro batch hbatch
            have hlength := hnext.taken.length
            have hroom := hnext.room
            refine hsent batch (Nat.le_of_lt_succ
              (Nat.lt_of_mul_lt_mul_right (a := lim.pointers) ?_))
            rw [Nat.succ_mul]
            exact Nat.lt_of_lt_of_le (hlength ▸ hbatch)
              (Nat.add_le_add_left (Nat.le_of_lt hroom) _)
          · simp only [hflush]
            exact .last rfl (fun earlier hle => hknown' earlier
              (Nat.lt_succ_of_le hle)) hfailed hsome hnext.room
              hnext.addresses
        · rename_i hmore
          have hgoes := ih hnext (fun hzero => ?_) hknown'
          · rw [Nat.add_assoc, Nat.add_comm 1 pktRemain] at hgoes
            exact hgoes
          · by_contra hne
            exact hmore ⟨hzero, List.length_pos_iff.mpr hne⟩
      · simp only [heq]
        exact .unknown (Nat.lt_add_of_pos_right (Nat.succ_pos _)) hknown hcell h
      · simp only [heq]
        refine .full filled (Nat.lt_add_of_pos_right (Nat.succ_pos _)) ?_ hsome
          hpart hfailed hfills haddr
        intro earlier hle
        rcases Nat.lt_or_eq_of_le hle with hlt | rfl
        · exact hknown earlier hlt
        · exact hcell

theorem ssnChanPostPkt_outcome (lim : DmaLimits) (fifo : SsnFifo)
    (scatter : Nat → Bool) (localNum : Nat) :
    SsnPosted.Outcome lim fifo scatter localNum
      (ssnPostLoop lim fifo scatter localNum 0 ⟨.empty, []⟩) := by
  have hstart : SsnPostState.AtCell lim fifo scatter ⟨.empty, []⟩ 0 :=
    ⟨Batches.holds_empty, lim.pos, rfl⟩
  have hloop := ssnPostLoop_outcome localNum hstart (fun _ => rfl)
    (fun _ hlt => absurd hlt (Nat.not_lt_zero _))
  rwa [Nat.zero_add] at hloop

/-- The pointers of the first `count` cells have been sent when the batches
that were sent cover them. -/
theorem sent_iff {dma : Batches.Batch SsnPointer} {count : Nat}
    {filled : List SsnPointer}
    (h : Batches.Holds lim.pointers scatter
      (fifo.pointers lim count ++ filled) dma) :
    (∀ cur < count, ∀ pointer ∈ fifo.pieces lim cur,
      pointer ∈ dma.written) ↔
      (fifo.pointers lim count).length ≤ dma.count * lim.pointers := by
  have hwritten : dma.written <+: fifo.pointers lim count ++ filled :=
    ⟨dma.pending, h.all⟩
  have hpointers : fifo.pointers lim count <+:
      fifo.pointers lim count ++ filled := List.prefix_append _ _
  rw [← h.full]
  constructor
  · intro hsent
    by_contra hlong
    have hlt := Nat.lt_of_not_le hlong
    obtain ⟨rest, hrest⟩ := List.prefix_of_prefix_length_le hwritten hpointers
      (Nat.le_of_lt hlt)
    have hnodup := pointers_nodup lim fifo count
    rw [← hrest] at hnodup hlt
    rw [List.length_append] at hlt
    obtain ⟨pointer, hmem⟩ := List.exists_mem_of_length_pos
      (Nat.pos_of_lt_add_right hlt)
    have hpieces : pointer ∈ fifo.pointers lim count := by
      rw [← hrest]
      exact List.mem_append_right _ hmem
    obtain ⟨cur, hcur, hpiece⟩ := (mem_pointers lim fifo).mp hpieces
    exact List.disjoint_of_nodup_append hnodup (hsent cur hcur pointer hpiece)
      hmem
  · intro hle cur hcur pointer hpiece
    have hpre := List.prefix_of_prefix_length_le hpointers hwritten hle
    exact hpre.subset ((mem_pointers lim fifo).mpr ⟨cur, hcur, hpiece⟩)

theorem FirstFailure.unique {first second : Nat}
    (h : FirstFailure scatter first) (h' : FirstFailure scatter second) :
    first = second := by
  rcases Nat.lt_trichotomy first second with hlt | heq | hlt
  · have hsent := h'.1 first hlt
    rw [h.2] at hsent
    cases hsent
  · exact heq
  · have hsent := h.1 second hlt
    rw [h'.2] at hsent
    cases hsent

/-- A failed batch is the first one that fails. -/
theorem firstFailure_of_failed {items : List SsnPointer}
    {dma : Batches.Batch SsnPointer}
    (h : Batches.Failed lim.pointers scatter items dma) :
    FirstFailure scatter dma.count :=
  ⟨h.sent, h.failed⟩

section Safe

variable {posted : Nat × SsnPostState} {localNum : Nat}

/-- A cell of unknown type spoils nothing when nothing is pending. -/
theorem postSafe_of_unknown (hlt : posted.1 < localNum)
    (hknown : ∀ cur < posted.1, fifo.Known lim cur)
    (hunknown : ¬ fifo.Known lim posted.1)
    (hcell : posted.2.AtCell lim fifo scatter posted.1) :
    (fifo.pointers lim posted.1).length ≤
        posted.2.dma.count * lim.pointers ↔
      fifo.PostSafe lim scatter localNum := by
  have hlength := hcell.taken.length
  have hroom := hcell.room
  constructor
  · intro hle
    have heq : (fifo.pointers lim posted.1).length =
        posted.2.dma.count * lim.pointers := by omega
    refine .inr (.inl ⟨posted.1, hlt, hknown, hunknown, ?_, ?_⟩)
    · rw [heq]
      exact Nat.dvd_mul_left _ _
    · intro batch hbatch
      rw [heq] at hbatch
      exact hcell.taken.sent batch (Nat.lt_of_mul_lt_mul_right hbatch)
  · rintro (⟨hall, _⟩ | ⟨cur, _, hbefore, hcur, hdvd, _⟩ |
      ⟨cur, _, batch, hbefore, hfirst, _, hfull⟩ |
      ⟨cur, _, heq, hbefore, _⟩)
    · exact absurd (hall _ hlt) hunknown
    · have hsame : cur = posted.1 := by
        rcases Nat.lt_trichotomy cur posted.1 with hless | heq | hless
        · exact absurd (hknown cur hless) hcur
        · exact heq
        · exact absurd (hbefore _ hless) hunknown
      subst hsame
      obtain ⟨batches, hbatches⟩ := hdvd
      have hle : batches ≤ posted.2.dma.count := by
        refine Nat.le_of_lt_succ
          (Nat.lt_of_mul_lt_mul_left (a := lim.pointers) ?_)
        rw [← hbatches, hlength, Nat.mul_comm, Nat.succ_eq_add_one,
          Nat.mul_add_one]
        exact Nat.add_lt_add_left hroom _
      rw [hbatches, Nat.mul_comm]
      exact Nat.mul_le_mul_right _ hle
    · -- the batch lies before the cell, so it has been sent
      have hless : cur + 1 ≤ posted.1 := by
        by_contra hge
        exact hunknown (hbefore _ (by omega))
      have hmono := length_pointers_le lim fifo hless
      have hsent : batch + 1 < posted.2.dma.count + 1 := by
        refine Nat.lt_of_mul_lt_mul_right (a := lim.pointers) ?_
        rw [Nat.add_one_mul posted.2.dma.count]
        omega
      have htrue := hcell.taken.sent batch (Nat.lt_of_succ_lt_succ hsent)
      rw [hfirst.2] at htrue
      cases htrue
    · exact absurd (hbefore posted.1 (by omega)) hunknown

/-- A full batch that cannot be sent spoils nothing when the cell being posted
has filled it alone. -/
theorem postSafe_of_full {filled : List SsnPointer}
    (hlt : posted.1 < localNum)
    (hknown : ∀ cur ≤ posted.1, fifo.Known lim cur) (hsome : filled ≠ [])
    (hpart : filled <+: fifo.pieces lim posted.1)
    (hfailed : Batches.Failed lim.pointers scatter
      (fifo.pointers lim posted.1 ++ filled) posted.2.dma)
    (hfills : posted.2.dma.pending.length = lim.pointers) :
    (fifo.pointers lim posted.1).length ≤
        posted.2.dma.count * lim.pointers ↔
      fifo.PostSafe lim scatter localNum := by
  have hpos := lim.pos
  have hfirst := firstFailure_of_failed hfailed
  have hlength := hfailed.toHolds.length
  rw [List.length_append, hfills, ← Nat.add_one_mul] at hlength
  have hsomeLen := List.length_pos_iff.mpr hsome
  have hnext : (posted.2.dma.count + 1) * lim.pointers ≤
      (fifo.pointers lim (posted.1 + 1)).length := by
    rw [pointers_succ, List.length_append]
    have hle := hpart.length_le
    omega
  have hmono := length_pointers_le lim fifo (show posted.1 + 1 ≤ localNum from hlt)
  have hstep : (posted.2.dma.count + 1) * lim.pointers =
      posted.2.dma.count * lim.pointers + lim.pointers := Nat.add_one_mul _ _
  have hnotSent : ∀ count, posted.1 + 1 ≤ count →
      ¬ fifo.AllSent lim scatter count := by
    intro count hle hall
    have hlater := length_pointers_le lim fifo hle
    have htrue := hall posted.2.dma.count (by omega)
    rw [hfirst.2] at htrue
    cases htrue
  constructor
  · intro hle
    exact .inr (.inr (.inl ⟨posted.1, hlt, _, hknown, hfirst, hle, hnext⟩))
  · rintro (⟨_, hall⟩ | ⟨cur, _, _, hcur, _, hall⟩ |
      ⟨cur, _, batch, _, hfirst', hle, hfull⟩ |
      ⟨_, batch, _, _, hfirst', _, _, hrest, _⟩)
    · exact absurd hall (hnotSent localNum hlt)
    · refine absurd hall (hnotSent cur ?_)
      by_contra hge
      exact hcur (hknown cur (by omega))
    · obtain rfl := hfirst'.unique hfirst
      rcases Nat.lt_trichotomy cur posted.1 with hless | rfl | hless
      · have hearlier := length_pointers_le lim fifo (Nat.add_one_le_iff.mpr hless)
        omega
      · exact hle
      · have hlater := length_pointers_le lim fifo (Nat.add_one_le_iff.mpr hless)
        omega
    · obtain rfl := hfirst'.unique hfirst
      omega

/-- The rest at the end that cannot be sent spoils nothing when it belongs to
the last cell and that one is no head. -/
theorem postSafe_of_last (heq : localNum = posted.1 + 1)
    (hknown : ∀ cur ≤ posted.1, fifo.Known lim cur)
    (hfailed : Batches.Failed lim.pointers scatter
      (fifo.pointers lim localNum) posted.2.dma)
    (hpending : 0 < posted.2.dma.pending.length)
    (hroom : posted.2.dma.pending.length < lim.pointers) :
    (fifo.pointers lim posted.1).length ≤
          posted.2.dma.count * lim.pointers ∧
        (fifo.cell lim posted.1).type = .dmaPayload ↔
      fifo.PostSafe lim scatter localNum := by
  have hfirst := firstFailure_of_failed hfailed
  have hlength := hfailed.toHolds.length
  have hstep : (posted.2.dma.count + 1) * lim.pointers =
      posted.2.dma.count * lim.pointers + lim.pointers := Nat.add_one_mul _ _
  constructor
  · rintro ⟨hle, htype⟩
    exact .inr (.inr (.inr ⟨posted.1, _, heq, hknown, hfirst, hle,
      by omega, by omega, htype⟩))
  · rintro (⟨_, hall⟩ | ⟨cur, hlt, _, hcur, _⟩ |
      ⟨cur, hlt, batch, _, hfirst', _, hfull⟩ |
      ⟨cur, batch, heq', _, hfirst', hle, _, _, htype⟩)
    · have htrue := hall posted.2.dma.count (by omega)
      rw [hfirst.2] at htrue
      cases htrue
    · exact absurd (hknown cur (by omega)) hcur
    · obtain rfl := hfirst'.unique hfirst
      have hmono := length_pointers_le lim fifo (Nat.add_one_le_iff.mpr hlt)
      omega
    · obtain rfl := hfirst'.unique hfirst
      obtain rfl : cur = posted.1 := by omega
      exact ⟨hle, htype⟩

end Safe

/-- The address of the last cell does not belong to the cells before it exactly
when it is a head. -/
theorem headAddrs_succ_eq_iff {cur : Nat} (hknown : fifo.Known lim cur) :
    fifo.headAddrs lim (cur + 1) = fifo.headAddrs lim cur ↔
      (fifo.cell lim cur).type = .dmaPayload := by
  rw [headAddrs_succ]
  rcases hknown with htype | htype
  · simp [htype]
  · simp [htype]

/-- For every content of the fifo and every outcome of the DMA, the count and
the addresses are right exactly when posting was safe. -/
theorem ssnChanPostPkt_right_iff (lim : DmaLimits) (fifo : SsnFifo)
    (scatter : Nat → Bool) (localNum : Nat) :
    SsnPosted.Right lim fifo (ssnChanPostPkt lim fifo scatter localNum) ↔
      fifo.PostSafe lim scatter localNum := by
  have hpos := lim.pos
  have houtcome := ssnChanPostPkt_outcome lim fifo scatter localNum
  generalize hposted : ssnPostLoop lim fifo scatter localNum 0 ⟨.empty, []⟩ =
    posted at houtcome
  have hright : SsnPosted.Right lim fifo
      (ssnChanPostPkt lim fifo scatter localNum) ↔
      (∀ cur < posted.1, ∀ pointer ∈ fifo.pieces lim cur,
        pointer ∈ posted.2.dma.written) ∧
      posted.2.address = fifo.headAddrs lim posted.1 := by
    simp only [ssnChanPostPkt, hposted]
    exact ⟨fun h => ⟨h.sent, h.addresses⟩, fun h => ⟨h.1, h.2⟩⟩
  rw [hright]
  cases houtcome with
  | done hknown hsent hall hwritten haddr =>
      refine iff_of_true ⟨?_, hall ▸ haddr⟩ (.inl ⟨hknown, hsent⟩)
      intro cur hcur pointer hpiece
      rw [hwritten, mem_pointers]
      exact ⟨cur, hall ▸ hcur, hpiece⟩
  | unknown hlt hknown hunknown hcell =>
      have htaken := hcell.taken
      rw [← List.append_nil (fifo.pointers lim posted.1)] at htaken
      rw [sent_iff htaken, and_iff_left hcell.addresses]
      exact postSafe_of_unknown hlt hknown hunknown hcell
  | full filled hlt hknown hsome hpart hfailed hfills haddr =>
      rw [sent_iff hfailed.toHolds, and_iff_left haddr]
      exact postSafe_of_full hlt hknown hsome hpart hfailed hfills
  | last heq hknown hfailed hpending hroom haddr =>
      have htaken := hfailed.toHolds
      rw [heq, pointers_succ] at htaken
      rw [sent_iff htaken, haddr, heq,
        headAddrs_succ_eq_iff (hknown _ (Nat.le_refl _)), ← heq]
      exact postSafe_of_last heq hknown hfailed hpending hroom

end Loop

section TwoHeads

/-- A head cell of no particular session. -/
def someHead : FrcoreSsnFifoCell where
  type := .dmaHead
  head := ⟨0, 0, 0, 0, 0, 0, 0, 0, 0⟩
  info := ⟨0, 0, 0, 0, .positive, 0, 0⟩
  payload := []
  payloadSize := 0
  blockAddr := 0
  infoOffset := 0
  payloadOffset := 0

/-- Two head cells wait. -/
def twoHeads : SsnFifo := ⟨2, 0, fun _ => someHead, fun _ => 0, 0⟩

/-- When the DMA fails, the first of them is counted nevertheless. -/
theorem twoHeads_not_right :
    ¬ ∀ (lim : DmaLimits) (fifo : SsnFifo) (scatter : Nat → Bool)
      (localNum : Nat),
      SsnPosted.Right lim fifo
        (ssnChanPostPkt lim fifo scatter localNum) := by
  intro hright
  have htwo := hright ⟨14, by decide⟩ twoHeads (fun _ => false) 2
  have hsent := htwo.sent 0 (by decide)
    (twoHeads.headPointer ⟨14, by decide⟩ 0) List.mem_cons_self
  exact absurd hsent List.not_mem_nil

end TwoHeads

end Barley
