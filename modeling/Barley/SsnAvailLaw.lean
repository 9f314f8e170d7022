/-
Every block address is in one place.  Addresses are lost only when the copy of
the read index to the host fails: the cores have moved theirs already.
-/
import Barley.ChanConserve
import Barley.SsnAvail

namespace Barley

theorem frcDmaSsnRingBuffSize_pos : 0 < frcDmaSsnRingBuffSize := by
  decide

theorem SsnBatch.size_le (batch : SsnBatch) :
    batch.size ≤ frcDmaSsnRingBuffSize := by
  cases batch <;> decide

theorem SsnBatch.size_pos (batch : SsnBatch) : 0 < batch.size := by
  cases batch <;> decide

theorem SsnChan.len1_le {idx len : Nat} : SsnChan.len1 idx len ≤ len :=
  Ring.firstPiece_le

section Cache

variable {fifo : SsnFifo}

theorem SsnFifo.cache_of_empty (h : fifo.availRdx = 0) : fifo.cache = [] := by
  rw [SsnFifo.cache, h]
  rfl

theorem SsnFifo.cache_fill {batch : SsnBatch} {got : List Nat}
    (h : got.length = batch.size) : (fifo.fill batch got).cache = got := by
  refine List.ext_getElem (by simp [SsnFifo.cache, SsnFifo.fill, h]) ?_
  intro k hk hk'
  simp only [SsnFifo.cache, SsnFifo.fill, Ring.read, List.getElem_map,
    List.getElem_range]
  exact Ring.write_get _ 0 hk'

/-- The last address leaves the cache. -/
theorem SsnFifo.cache_eq (h : 0 < fifo.availRdx) :
    fifo.cache = fifo.pop.cache ++ [fifo.top] := by
  obtain ⟨count, hcount⟩ := Nat.exists_eq_add_of_lt h
  rw [Nat.zero_add] at hcount
  simp only [SsnFifo.cache, SsnFifo.pop, SsnFifo.top, Ring.read, hcount,
    Nat.add_sub_cancel, List.range_succ, List.map_append, List.map_singleton,
    Nat.zero_add]

end Cache

/-- What the fifo with the lock has read so far, of the slots from index `start`
on of which `unread` are filled. -/
inductive SsnAvailOpOk {F : Type} (call : F → Option SsnBatch)
    (buff : Nat → Nat) (start unread : Nat) : SsnAvailOp F → Prop
  | free : SsnAvailOpOk call buff start unread .free
  | first {fifo : F} {batch : SsnBatch} (hcall : call fifo = some batch)
      (hlen : batch.size ≤ unread) :
      SsnAvailOpOk call buff start unread (.first fifo batch)
  | second {fifo : F} {batch : SsnBatch} (hcall : call fifo = some batch)
      (hlen : batch.size ≤ unread)
      (hsplit : SsnChan.len1 start batch.size < batch.size) :
      SsnAvailOpOk call buff start unread (.second fifo batch
        (Ring.window frcDmaSsnRingBuffSize buff start
          (SsnChan.len1 start batch.size)))
  | publish {fifo : F} {batch : SsnBatch} (hcall : call fifo = some batch)
      (hlen : batch.size ≤ unread) :
      SsnAvailOpOk call buff start unread (.publish fifo batch
        (Ring.window frcDmaSsnRingBuffSize buff start batch.size))

/-- More filled slots, with the unread ones unchanged, do not disturb a fifo
that reads. -/
theorem SsnAvailOpOk.mono {F : Type} {call : F → Option SsnBatch}
    {buff buff' : Nat → Nat} {start unread unread' : Nat} {op : SsnAvailOp F}
    (h : SsnAvailOpOk call buff start unread op) (hle : unread ≤ unread')
    (hbuff : Ring.window frcDmaSsnRingBuffSize buff' start unread =
      Ring.window frcDmaSsnRingBuffSize buff start unread) :
    SsnAvailOpOk call buff' start unread' op := by
  cases h with
  | free => exact .free
  | first hcall hlen => exact .first hcall (Nat.le_trans hlen hle)
  | second hcall hlen hsplit =>
      rw [Ring.window_eq_of_le _ (Nat.le_trans SsnChan.len1_le hlen) hbuff]
      exact .second hcall (Nat.le_trans hlen hle) hsplit
  | publish hcall hlen =>
      rw [Ring.window_eq_of_le _ hlen hbuff]
      exact .publish hcall (Nat.le_trans hlen hle)

/-- A call that is not the one with the lock may begin. -/
theorem SsnAvailOpOk.begin {F : Type} [DecidableEq F]
    {call : F → Option SsnBatch} {buff : Nat → Nat} {start unread : Nat}
    {op : SsnAvailOp F} (h : SsnAvailOpOk call buff start unread op) {fifo : F}
    (hidle : call fifo = none) (batch : SsnBatch) :
    SsnAvailOpOk (Function.update call fifo (some batch)) buff start unread
      op := by
  have hother : ∀ {other batch'}, call other = some batch' →
      Function.update call fifo (some batch) other = some batch' := by
    intro other batch' hcall
    rw [Function.update_of_ne, hcall]
    rintro rfl
    rw [hidle] at hcall
    cases hcall
  cases h with
  | free => exact .free
  | first hcall hlen => exact .first (hother hcall) hlen
  | second hcall hlen hsplit => exact .second (hother hcall) hlen hsplit
  | publish hcall hlen => exact .publish (hother hcall) hlen

/-- The slots of a batch are the first unread ones. -/
theorem SsnAvailState.window_split {F : Type} {s : SsnAvailState F}
    {batch : SsnBatch} (hlen : batch.size ≤ s.entered - s.chan.availRidx) :
    (Ring.window frcDmaSsnRingBuffSize s.chan.avail.buff s.chan.availRidx
        (s.entered - s.chan.availRidx) : Multiset Nat) =
      Ring.window frcDmaSsnRingBuffSize s.chan.avail.buff s.chan.availRidx
          batch.size +
        Ring.window frcDmaSsnRingBuffSize s.chan.avail.buff
          (s.chan.availRidx + batch.size)
          (s.entered - (s.chan.availRidx + batch.size)) := by
  rw [Multiset.coe_add, ← Ring.window_append]
  congr 2
  omega

theorem SsnAvailState.entered_le {F : Type} [DecidableEq F]
    {s s' : SsnAvailState F} (hstep : SsnAvailStep s s') :
    s.entered ≤ s'.entered := by
  cases hstep with
  | hit => exact Nat.le_refl _
  | miss => exact Nat.le_refl _
  | copyWidx =>
      unfold SsnAvailState.copyWidx
      split
      · exact Nat.le_refl _
      · split
        · exact Nat.le_refl _
        · exact Nat.le_refl _
  | copyFirst =>
      unfold SsnAvailState.copyFirst
      split
      · exact Nat.le_refl _
      · exact Nat.le_refl _
  | copySecond =>
      unfold SsnAvailState.copySecond
      split
      · exact Nat.le_refl _
      · exact Nat.le_refl _
  | copyRidx =>
      unfold SsnAvailState.copyRidx
      split
      · exact Nat.le_refl _
      · exact Nat.le_refl _
  | hostWrite => exact Nat.le_refl _
  | hostPublish => exact Nat.le_succ _

section Law

variable {F : Type} [Fintype F]

/-- The addresses in the ring, in the fifos, and handed out. -/
def SsnAvailState.places (s : SsnAvailState F) : Multiset Nat :=
  s.unread + ∑ fifo, ((s.fifos fifo).cache : Multiset Nat) + s.handedOut

/-- Every address is in one place, and none goes out twice without having come
back in between. -/
structure SsnAvailState.HandedOutOnce (blocks : List Nat)
    (s : SsnAvailState F) : Prop where
  places : s.places = blocks
  once : Ledger.NoRepeat s.entries

/-- What every step keeps. -/
structure SsnAvailInv (blocks : List Nat) (s : SsnAvailState F) : Prop where
  widx : s.chan.avail.widx = s.entered
  le : s.chan.availRidx ≤ s.entered
  seen : s.chan.avail.ridx ≤ s.chan.availRidx
  room : s.entered ≤ s.chan.availRidx + frcDmaSsnRingBuffSize
  conserved : ∃ lost : List Nat,
    (Ring.window frcDmaSsnRingBuffSize s.chan.avail.buff s.chan.availRidx
        (s.entered - s.chan.availRidx) : Multiset Nat) +
      ∑ fifo, ((s.fifos fifo).cache : Multiset Nat) + s.handedOut + lost =
        blocks ∧ (lost = [] ↔ .note ∉ s.entries)
  busy : ∀ fifo, s.call fifo ≠ none → (s.fifos fifo).availRdx = 0
  op : SsnAvailOpOk s.call s.chan.avail.buff s.chan.availRidx
    (s.entered - s.chan.availRidx) s.op
  pending : ∀ addr, s.pending = some addr → addr ∈ s.handedOut ∧
    s.chan.avail.buff (s.entered % frcDmaSsnRingBuffSize) = addr ∧
    s.entered < s.chan.availRidx + frcDmaSsnRingBuffSize
  covers : Ledger.Covers s.handedOut s.entries
  once : Ledger.NoRepeat s.entries

/-- With few transfers the unread part lies between the indexes. -/
theorem SsnAvailInv.unread_eq {blocks : List Nat} {s : SsnAvailState F}
    (h : SsnAvailInv blocks s) (hfew : s.entered < 2 ^ 64) :
    s.unread = Ring.window frcDmaSsnRingBuffSize s.chan.avail.buff
      s.chan.availRidx (s.entered - s.chan.availRidx) := by
  rw [SsnAvailState.unread, h.widx, sub64_eq h.le hfew]

theorem SsnAvailInv.start (start : SsnAvailStart F) :
    SsnAvailInv start.blocks start.state where
  widx := rfl
  le := start.le
  seen := Nat.le_refl _
  room := start.room
  conserved := by
    refine ⟨[], ?_, iff_of_true rfl List.not_mem_nil⟩
    have hcache : ∑ fifo, ((start.fifos fifo).cache : Multiset Nat) = 0 :=
      Finset.sum_eq_zero fun fifo _ => by
        rw [SsnFifo.cache_of_empty (start.empty fifo)]
        rfl
    show _ + ∑ fifo, ((start.fifos fifo).cache : Multiset Nat) + _ + _ = _
    rw [hcache]
    exact (add_zero _).trans ((add_zero _).trans (add_zero _))
  busy := fun _ hcall => absurd rfl hcall
  op := .free
  pending := fun _ hnone => nomatch hnone
  covers := Ledger.covers_nil
  once := Ledger.noRepeat_nil

section Facts

variable {blocks : List Nat} {s : SsnAvailState F} {fifo : F}
  {batch : SsnBatch}

theorem SsnAvailInv.sync (h : SsnAvailInv blocks s) :
    SsnAvailInv blocks s.sync :=
  ⟨h.widx, h.le, h.seen, h.room, h.conserved, h.busy, h.op, h.pending,
    h.covers, h.once⟩

/-- An address that a fifo keeps is not handed out. -/
theorem SsnAvailInv.top_not_mem (h : SsnAvailInv blocks s)
    (hblocks : blocks.Nodup) (hsome : 0 < (s.fifos fifo).availRdx) :
    (s.fifos fifo).top ∉ s.handedOut := by
  obtain ⟨lost, hplaces, _⟩ := h.conserved
  rw [← Multiset.coe_nodup, ← hplaces, Multiset.nodup_add,
    Multiset.nodup_add] at hblocks
  have hdisjoint := hblocks.1.2.2
  intro hmem
  refine Multiset.disjoint_left.mp hdisjoint ?_ (Multiset.mem_coe.mpr hmem)
  refine Multiset.mem_add.mpr (.inr ?_)
  refine Multiset.mem_sum.mpr ⟨fifo, Finset.mem_univ fifo, ?_⟩
  rw [SsnFifo.cache_eq hsome]
  exact Multiset.mem_coe.mpr (List.mem_append_right _ List.mem_cons_self)

theorem SsnAvailInv.availRidx_store (h : SsnAvailInv blocks s)
    (hfew : s.entered < 2 ^ 64)
    (hlen : batch.size ≤ s.entered - s.chan.availRidx) :
    (s.store batch).chan.availRidx = s.chan.availRidx + batch.size := by
  have hle := h.le
  exact add64_eq (by omega)

/-- The slot of a pending entry stays outside of the window when the read index
moves on. -/
theorem SsnAvailInv.pending_store (h : SsnAvailInv blocks s)
    (hfew : s.entered < 2 ^ 64)
    (hlen : batch.size ≤ s.entered - s.chan.availRidx) (addr : Nat)
    (haddr : s.pending = some addr) :
    addr ∈ s.handedOut ∧
      s.chan.avail.buff (s.entered % frcDmaSsnRingBuffSize) = addr ∧
      s.entered < (s.store batch).chan.availRidx + frcDmaSsnRingBuffSize := by
  obtain ⟨hmem, hbuff, hroom⟩ := h.pending addr haddr
  have hridx := h.availRidx_store hfew hlen
  exact ⟨hmem, hbuff, by omega⟩

/-- The read index stays within the written part of the ring. -/
theorem SsnAvailInv.availRidx_store_bounds (h : SsnAvailInv blocks s)
    (hfew : s.entered < 2 ^ 64)
    (hlen : batch.size ≤ s.entered - s.chan.availRidx) :
    (s.store batch).chan.availRidx ≤ s.entered ∧
      s.entered ≤ (s.store batch).chan.availRidx + frcDmaSsnRingBuffSize := by
  have hridx := h.availRidx_store hfew hlen
  have hle := h.le
  have hpos := batch.size_pos
  have hroom := h.room
  omega

/-- Nothing is lost as long as no copy of the read index fails. -/
theorem SsnAvailInv.handedOutOnce_iff_not_mem (h : SsnAvailInv blocks s)
    (hfew : s.entered < 2 ^ 64) :
    s.HandedOutOnce blocks ↔ .note ∉ s.entries := by
  obtain ⟨lost, hplaces, hlost⟩ := h.conserved
  rw [← h.unread_eq hfew] at hplaces
  rw [← hlost]
  constructor
  · intro honce
    have hcount := congrArg Multiset.card hplaces
    rw [← honce.places, Multiset.card_add] at hcount
    have hnone : Multiset.card (lost : Multiset Nat) = 0 :=
      Nat.add_eq_left.mp hcount
    exact List.length_eq_zero_iff.mp hnone
  · rintro rfl
    exact ⟨(add_zero _).symm.trans hplaces, h.once⟩

end Facts

section Gives

variable [DecidableEq F] {blocks : List Nat} {s : SsnAvailState F} {fifo : F}
  {batch : SsnBatch} {got : List Nat}

/-- Only one fifo changes what it keeps. -/
theorem sum_update_cache (fifos : F → SsnFifo) (fifo : F) (next : SsnFifo) :
    ∑ f, ((Function.update fifos fifo next f).cache : Multiset Nat) +
        (fifos fifo).cache =
      ∑ f, ((fifos f).cache : Multiset Nat) + next.cache := by
  have hheld := sum_update_held (fun f => (fifos f).cache) fifo next.cache
  have hsame : ∀ f, (Function.update fifos fifo next f).cache =
      Function.update (fun f => (fifos f).cache) fifo next.cache f :=
    fun f => Function.apply_update (fun _ => SsnFifo.cache) fifos fifo next f
  simp only [hsame]
  exact hheld

theorem SsnAvailInv.give (h : SsnAvailInv blocks s) (hblocks : blocks.Nodup)
    (hcall : s.call fifo = none) (hsome : 0 < (s.fifos fifo).availRdx) :
    SsnAvailInv blocks (s.give fifo) := by
  refine ⟨h.widx, h.le, h.seen, h.room, ?_, ?_, h.op, ?_, h.covers.out _,
    h.once.out h.covers (h.top_not_mem hblocks hsome)⟩
  · obtain ⟨lost, hplaces, hlost⟩ := h.conserved
    refine ⟨lost, ?_, ?_⟩
    · have hsum := sum_update_cache s.fifos fifo (s.fifos fifo).pop
      rw [SsnFifo.cache_eq hsome, ← Multiset.coe_add, ← add_assoc,
        add_right_comm] at hsum
      have htop := add_right_cancel hsum
      have hcons : (((s.fifos fifo).top :: s.handedOut : List Nat) :
          Multiset Nat) = ([(s.fifos fifo).top] : List Nat) + s.handedOut := rfl
      rw [← hplaces, ← htop]
      show _ + _ + (((s.fifos fifo).top :: s.handedOut : List Nat) :
        Multiset Nat) + _ = _
      rw [hcons]
      simp only [SsnAvailState.give]
      ac_rfl
    · rw [hlost]
      simp [SsnAvailState.give]
  · intro other hother
    have hne : other ≠ fifo := by
      rintro rfl
      exact hother hcall
    simp only [SsnAvailState.give, Function.update_of_ne hne]
    exact h.busy other hother
  · intro addr haddr
    obtain ⟨hmem, hrest⟩ := h.pending addr haddr
    exact ⟨List.mem_cons_of_mem _ hmem, hrest⟩

theorem SsnAvailInv.fail (h : SsnAvailInv blocks s)
    (hcall : s.call fifo = some batch) :
    SsnAvailInv blocks (s.fail fifo batch) := by
  refine ⟨h.widx, h.le, h.seen, h.room, h.conserved, ?_, .free, h.pending,
    h.covers, h.once⟩
  intro other hother
  by_cases hsame : other = fifo
  · subst hsame
    exact h.busy other (by simp [hcall])
  · simp only [SsnAvailState.fail, Function.update_of_ne hsame] at hother
    exact h.busy other hother

theorem SsnAvailInv.miss (h : SsnAvailInv blocks s)
    (hcall : s.call fifo = none) (hnone : (s.fifos fifo).availRdx = 0) :
    SsnAvailInv blocks (s.miss fifo) := by
  refine ⟨h.widx, h.le, h.seen, h.room, h.conserved, ?_,
    h.op.begin hcall .thousand, h.pending, h.covers, h.once⟩
  intro other hother
  by_cases hsame : other = fifo
  · subst hsame
    exact hnone
  · simp only [SsnAvailState.miss, Function.update_of_ne hsame] at hother
    exact h.busy other hother

end Gives

section Copies

variable [DecidableEq F] {blocks : List Nat} {s : SsnAvailState F} {fifo : F}
  {batch : SsnBatch} {got : List Nat}

theorem SsnAvailInv.copyWidx (h : SsnAvailInv blocks s)
    (hfew : s.entered < 2 ^ 64) (hcall : s.call fifo = some batch) (ok : Bool) :
    SsnAvailInv blocks (s.copyWidx fifo batch ok) := by
  unfold SsnAvailState.copyWidx
  split
  · exact h.fail hcall
  · split
    · exact h.sync.fail hcall
    · rename_i henough
      have hlen : sub64 s.sync.chan.availWidx s.sync.chan.availRidx =
          s.entered - s.chan.availRidx := by
        show sub64 s.chan.avail.widx s.chan.availRidx = _
        rw [h.widx, sub64_eq h.le hfew]
      rw [hlen] at henough
      exact ⟨h.widx, h.le, h.seen, h.room, h.conserved, h.busy,
        .first hcall (Nat.le_of_not_lt henough), h.pending, h.covers, h.once⟩

theorem SsnAvailInv.copyFirst (h : SsnAvailInv blocks s)
    (hop : s.op = .first fifo batch) (ok : Bool) :
    SsnAvailInv blocks (s.copyFirst fifo batch ok) := by
  have hok := h.op
  rw [hop] at hok
  cases hok with
  | first hcall hlen =>
      unfold SsnAvailState.copyFirst
      split
      · exact h.fail hcall
      · have hread : Ring.read s.chan.avail.buff
            (s.chan.availRidx % frcDmaSsnRingBuffSize)
            (SsnChan.len1 s.chan.availRidx batch.size) =
            Ring.window frcDmaSsnRingBuffSize s.chan.avail.buff
              s.chan.availRidx (SsnChan.len1 s.chan.availRidx batch.size) :=
          Ring.read_first _ frcDmaSsnRingBuffSize_pos
        refine ⟨h.widx, h.le, h.seen, h.room, h.conserved, h.busy, ?_,
          h.pending, h.covers, h.once⟩
        simp only [hread]
        split
        · exact .second hcall hlen ‹_›
        · have hwhole : SsnChan.len1 s.chan.availRidx batch.size =
              batch.size :=
            Nat.le_antisymm SsnChan.len1_le (Nat.not_lt.mp ‹_›)
          rw [hwhole]
          exact .publish hcall hlen

theorem SsnAvailInv.copySecond (h : SsnAvailInv blocks s)
    (hop : s.op = .second fifo batch got) (ok : Bool) :
    SsnAvailInv blocks (s.copySecond fifo batch got ok) := by
  have hok := h.op
  rw [hop] at hok
  cases hok with
  | second hcall hlen hsplit =>
      unfold SsnAvailState.copySecond
      split
      · exact h.fail hcall
      · have hread : Ring.read s.chan.avail.buff 0
            (batch.size - SsnChan.len1 s.chan.availRidx batch.size) =
            Ring.window frcDmaSsnRingBuffSize s.chan.avail.buff
              (s.chan.availRidx + SsnChan.len1 s.chan.availRidx batch.size)
              (batch.size - SsnChan.len1 s.chan.availRidx batch.size) :=
          Ring.read_second _ batch.size_le hsplit
        refine ⟨h.widx, h.le, h.seen, h.room, h.conserved, h.busy, ?_,
          h.pending, h.covers, h.once⟩
        simp only [hread]
        rw [← Ring.window_append, Nat.add_sub_cancel' SsnChan.len1_le]
        exact .publish hcall hlen

/-- The batch moves from the ring to the fifo. -/
theorem SsnAvailInv.keep (h : SsnAvailInv blocks s)
    (hfew : s.entered < 2 ^ 64) (hop : s.op = .publish fifo batch got) :
    SsnAvailInv blocks ((s.store batch).keep fifo batch got) := by
  have hok := h.op
  rw [hop] at hok
  cases hok with
  | publish hcall hlen =>
      have hridx := h.availRidx_store hfew hlen
      obtain ⟨hle, hroom⟩ := h.availRidx_store_bounds hfew hlen
      refine ⟨h.widx, hle, Nat.le_refl _, hroom, ?_, ?_, .free,
        h.pending_store hfew hlen, h.covers, h.once⟩
      · obtain ⟨lost, hplaces, hlost⟩ := h.conserved
        refine ⟨lost, ?_, hlost⟩
        have hsum := sum_update_cache s.fifos fifo ((s.fifos fifo).fill batch
          (Ring.window frcDmaSsnRingBuffSize s.chan.avail.buff
            s.chan.availRidx batch.size))
        rw [SsnFifo.cache_of_empty (h.busy fifo (by simp [hcall])),
          SsnFifo.cache_fill (Ring.length_window ..), Multiset.coe_nil,
          add_zero] at hsum
        rw [← hplaces, SsnAvailState.window_split hlen]
        simp only [SsnAvailState.keep, hridx]
        simp only [SsnAvailState.store]
        rw [hsum]
        ac_rfl
      · intro other hother
        by_cases hsame : other = fifo
        · subst hsame
          exact absurd (Function.update_self ..) hother
        · simp only [SsnAvailState.keep, Function.update_of_ne hsame] at *
          exact h.busy other hother

/-- The batch is lost when the copy of the read index fails. -/
theorem SsnAvailInv.lose (h : SsnAvailInv blocks s)
    (hfew : s.entered < 2 ^ 64) (hop : s.op = .publish fifo batch got) :
    SsnAvailInv blocks
      { (s.store batch).fail fifo batch with entries := .note :: s.entries } := by
  have hok := h.op
  rw [hop] at hok
  cases hok with
  | publish hcall hlen =>
      have hpos := batch.size_pos
      have hridx := h.availRidx_store hfew hlen
      obtain ⟨hle, hroom⟩ := h.availRidx_store_bounds hfew hlen
      refine ⟨h.widx, hle, ?_, hroom, ?_, ?_, .free,
        h.pending_store hfew hlen, h.covers.note,
        h.once.cons fun _ => nofun⟩
      · show s.chan.avail.ridx ≤ (s.store batch).chan.availRidx
        have hseen := h.seen
        omega
      · obtain ⟨lost, hplaces, _⟩ := h.conserved
        refine ⟨Ring.window frcDmaSsnRingBuffSize s.chan.avail.buff
          s.chan.availRidx batch.size ++ lost, ?_, ?_⟩
        · rw [← hplaces, SsnAvailState.window_split hlen, ← Multiset.coe_add]
          simp only [SsnAvailState.fail, hridx]
          simp only [SsnAvailState.store]
          ac_rfl
        · refine iff_of_false (fun hnil => ?_)
            (not_not_intro List.mem_cons_self)
          have hlength := congrArg List.length hnil
          rw [List.length_append, Ring.length_window] at hlength
          simp only [List.length_nil] at hlength
          omega
      · intro other hother
        by_cases hsame : other = fifo
        · subst hsame
          exact h.busy other (by simp [hcall])
        · simp only [SsnAvailState.fail, Function.update_of_ne hsame] at hother
          exact h.busy other hother

theorem SsnAvailInv.copyRidx (h : SsnAvailInv blocks s)
    (hblocks : blocks.Nodup) (hfew : s.entered < 2 ^ 64)
    (hop : s.op = .publish fifo batch got) (ok : Bool) :
    SsnAvailInv blocks (s.copyRidx fifo batch got ok) := by
  unfold SsnAvailState.copyRidx
  split
  · exact h.lose hfew hop
  · refine (h.keep hfew hop).give hblocks (Function.update_self ..) ?_
    simp only [SsnAvailState.keep, Function.update_self]
    exact batch.size_pos

end Copies

section Host

variable {blocks : List Nat} {s : SsnAvailState F} {addr seen : Nat}

theorem SsnAvailInv.hostWrite (h : SsnAvailInv blocks s)
    (hfew : s.entered < 2 ^ 64) (hmem : addr ∈ s.handedOut)
    (hseen : seen ≤ s.chan.avail.ridx) (hle : seen ≤ s.chan.avail.widx)
    (hroom : sub64 s.chan.avail.widx seen < frcDmaSsnRingBuffSize) :
    SsnAvailInv blocks (s.hostWrite addr) := by
  have hridx := h.seen
  have hunread := h.le
  rw [h.widx] at hle hroom
  rw [sub64_eq hle hfew] at hroom
  have hlt : s.entered < s.chan.availRidx + frcDmaSsnRingBuffSize := by omega
  have hwrites : Ring.Writes frcDmaSsnRingBuffSize s.entered 1
      s.chan.avail.buff (s.hostWrite addr).chan.avail.buff := by
    intro slot hslot
    have hne := hslot 0 Nat.one_pos
    rw [Nat.add_zero, ← h.widx] at hne
    exact Function.update_of_ne hne _ _
  -- the slot is not one of the unread
  have hwindow : Ring.window frcDmaSsnRingBuffSize
      (s.hostWrite addr).chan.avail.buff s.chan.availRidx
      (s.entered - s.chan.availRidx) =
    Ring.window frcDmaSsnRingBuffSize s.chan.avail.buff s.chan.availRidx
      (s.entered - s.chan.availRidx) :=
    hwrites.window_eq (by omega) (by omega)
  refine ⟨h.widx, h.le, h.seen, h.room, ?_, h.busy,
    h.op.mono (Nat.le_refl _) hwindow, ?_, h.covers, h.once⟩
  · obtain ⟨lost, hplaces, hlost⟩ := h.conserved
    refine ⟨lost, ?_, hlost⟩
    rw [← hplaces, ← hwindow]
    rfl
  · intro other hother
    cases hother
    refine ⟨hmem, ?_, hlt⟩
    show Function.update s.chan.avail.buff
      (s.chan.avail.widx % frcDmaSsnRingBuffSize) addr
        (s.entered % frcDmaSsnRingBuffSize) = addr
    rw [h.widx, Function.update_self]

theorem SsnAvailInv.hostPublish (h : SsnAvailInv blocks s)
    (hfew : s.entered + 1 < 2 ^ 64) (hpending : s.pending = some addr) :
    SsnAvailInv blocks (s.hostPublish addr) := by
  obtain ⟨hmem, hbuff, hroom⟩ := h.pending addr hpending
  have hle := h.le
  have hcount : s.entered + 1 - s.chan.availRidx =
      s.entered - s.chan.availRidx + 1 := by omega
  have hlast : s.chan.availRidx + (s.entered - s.chan.availRidx) =
      s.entered := by omega
  refine ⟨?_, ?_, h.seen, ?_, ?_, h.busy, ?_, (fun _ hnone => nomatch hnone),
    h.covers.back addr, h.once.cons fun _ => nofun⟩
  · show add64 s.chan.avail.widx 1 = s.entered + 1
    rw [h.widx, add64_eq hfew]
  · show s.chan.availRidx ≤ s.entered + 1
    omega
  · show s.entered + 1 ≤ s.chan.availRidx + frcDmaSsnRingBuffSize
    omega
  · obtain ⟨lost, hplaces, hlost⟩ := h.conserved
    refine ⟨lost, ?_, ?_⟩
    · show (Ring.window frcDmaSsnRingBuffSize s.chan.avail.buff
        s.chan.availRidx (s.entered + 1 - s.chan.availRidx) : Multiset Nat) +
          _ + ((s.handedOut.erase addr : List Nat) : Multiset Nat) + _ = _
      have hcons : (s.handedOut : Multiset Nat) =
          ([addr] : List Nat) + (s.handedOut.erase addr : List Nat) :=
        Multiset.coe_eq_coe.mpr (List.perm_cons_erase hmem)
      rw [← hplaces, hcount, Ring.window_append, Ring.window_one, hlast, hbuff,
        ← Multiset.coe_add, hcons]
      simp only [SsnAvailState.hostPublish]
      ac_rfl
    · rw [hlost]
      simp [SsnAvailState.hostPublish]
  · refine h.op.mono ?_ rfl
    show s.entered - s.chan.availRidx ≤ s.entered + 1 - s.chan.availRidx
    omega

end Host

section Runs

variable [DecidableEq F] {blocks : List Nat} {s s' : SsnAvailState F}

theorem SsnAvailInv.step (h : SsnAvailInv blocks s) (hblocks : blocks.Nodup)
    (hfew : s'.entered < 2 ^ 64) (hstep : SsnAvailStep s s') :
    SsnAvailInv blocks s' := by
  have hbefore := Nat.lt_of_le_of_lt (SsnAvailState.entered_le hstep) hfew
  cases hstep with
  | hit fifo hcall hsome => exact h.give hblocks hcall hsome
  | miss fifo hcall hnone => exact h.miss hcall hnone
  | copyWidx ok hcall hlock => exact h.copyWidx hbefore hcall ok
  | copyFirst ok hop => exact h.copyFirst hop ok
  | copySecond ok hop => exact h.copySecond hop ok
  | copyRidx ok hop => exact h.copyRidx hblocks hbefore hop ok
  | hostWrite hidle hmem hseen hle hroom =>
      exact h.hostWrite hbefore hmem hseen hle hroom
  | hostPublish hpending => exact h.hostPublish hfew hpending

theorem SsnAvailReachable.inv {start : SsnAvailStart F}
    (h : SsnAvailReachable start.state s) (hfew : s.entered < 2 ^ 64) :
    SsnAvailInv start.blocks s := by
  induction h with
  | start => exact .start start
  | step _ hstep ih =>
      have hbefore := Nat.lt_of_le_of_lt (SsnAvailState.entered_le hstep) hfew
      exact (ih hbefore).step start.distinct hfew hstep

end Runs

/-- In every order of steps, every address is in one place and none is handed
out twice exactly as long as no copy of the read index to the host has
failed. -/
theorem handedOutOnce_iff [DecidableEq F] (start : SsnAvailStart F)
    {s : SsnAvailState F} (h : SsnAvailReachable start.state s)
    (hfew : s.entered < 2 ^ 64) :
    s.HandedOutOnce start.blocks ↔ .note ∉ s.entries :=
  (h.inv hfew).handedOutOnce_iff_not_mem hfew

end Law

section OneAddress

/-- A fifo that keeps nothing. -/
def noBlocks : SsnFifo where
  localWidx := 0
  localRidx := 0
  fifoCell := fun _ => ⟨.resv, ⟨0, 0, 0, 0, 0, 0, 0, 0, 0⟩,
    ⟨0, 0, 0, 0, .positive, 0, 0⟩, [], 0, 0, 0, 0⟩
  availBuff := fun _ => 0
  availRdx := 0

/-- One fifo, and a ring with one address. -/
def oneAddress : SsnAvailStart Unit where
  ring := ⟨1, 0, fun _ => 7⟩
  fifos := fun _ => noBlocks
  le := Nat.zero_le 1
  room := by decide
  empty := fun _ => rfl
  distinct := List.nodup_singleton 7

/-- A call for which the two large batches are not to be had. -/
def lastBatch (s : SsnAvailState Unit) : SsnAvailState Unit :=
  ((s.miss ()).copyWidx () .thousand false).copyWidx () .hundred false

theorem SsnAvailReachable.toLastBatch {start s : SsnAvailState Unit}
    (h : SsnAvailReachable start s) (hcall : s.call () = none)
    (hnone : (s.fifos ()).availRdx = 0) (hlock : s.op = .free) :
    SsnAvailReachable start (lastBatch s) := by
  have hmiss := h.step (.miss () hcall hnone)
  have hthousand := hmiss.step
    (@SsnAvailStep.copyWidx Unit _ _ () .thousand false rfl hlock)
  exact hthousand.step
    (@SsnAvailStep.copyWidx Unit _ _ () .hundred false rfl rfl)

/-- A call that gets the address. -/
def oneHanded (s : SsnAvailState Unit) : SsnAvailState Unit :=
  (((lastBatch s).copyWidx () .one true).copyFirst () .one true).copyRidx () .one
    [7] true

/-- The address is handed out, put back into the ring and handed out again. -/
theorem oneAddress_handedOutOnce :
    ∃ s, SsnAvailReachable oneAddress.state s ∧
      s.entries = [.out 7, .back 7, .out 7] ∧
      s.HandedOutOnce oneAddress.blocks := by
  have hround : ∀ s, SsnAvailReachable oneAddress.state s →
      s.call () = none → (s.fifos ()).availRdx = 0 → s.op = .free →
      ((lastBatch s).copyWidx () .one true).op = .first () .one →
      (((lastBatch s).copyWidx () .one true).copyFirst () .one true).op =
        .publish () .one [7] →
      SsnAvailReachable oneAddress.state (oneHanded s) := by
    intro s h hcall hnone hlock hfirst hpublish
    have hwidx := (h.toLastBatch hcall hnone hlock).step
      (@SsnAvailStep.copyWidx Unit _ _ () .one true rfl rfl)
    exact (hwidx.step (.copyFirst true hfirst)).step (.copyRidx true hpublish)
  have honce := hround oneAddress.state .start rfl rfl rfl rfl rfl
  have hwrite := honce.step (@SsnAvailStep.hostWrite Unit _ _ 7 1 rfl
    (List.mem_singleton_self 7) (by decide) (by decide) (by decide))
  have hback := hwrite.step (.hostPublish rfl)
  have htwice := hround _ hback rfl rfl rfl rfl rfl
  have hentries : (oneHanded (((oneHanded oneAddress.state).hostWrite
      7).hostPublish 7)).entries = [.out 7, .back 7, .out 7] := rfl
  refine ⟨_, htwice, hentries, (handedOutOnce_iff oneAddress htwice ?_).mpr ?_⟩
  · decide
  · simp [hentries]

/-- A batch that lies in one piece is read in two copies. -/
theorem SsnAvailReachable.publish {F : Type} [DecidableEq F]
    {start s : SsnAvailState F} {fifo : F} {batch : SsnBatch}
    (h : SsnAvailReachable start s) (hlock : s.op = .free)
    (hcall : s.call fifo = some batch)
    (henough : batch.size ≤ sub64 s.chan.avail.widx s.chan.availRidx)
    (hwhole : SsnChan.len1 s.chan.availRidx batch.size = batch.size) :
    ∃ t got, SsnAvailReachable start t ∧ t.op = .publish fifo batch got ∧
      t.entered = s.entered := by
  have hwidx := h.step (.copyWidx true hcall hlock)
  have hlong : ¬ sub64 s.sync.chan.availWidx s.sync.chan.availRidx <
      batch.size := Nat.not_lt.mpr henough
  rw [SsnAvailState.copyWidx, Bool.not_true, if_neg Bool.false_ne_true,
    if_neg hlong] at hwidx
  have hlast : ¬ SsnChan.len1 s.chan.availRidx batch.size < batch.size :=
    Nat.not_lt.mpr (Nat.le_of_eq hwhole.symm)
  exact ⟨_, _, hwidx.step (.copyFirst true rfl), if_neg hlast, rfl⟩

/-- The copies of the last batch succeed up to the read index. -/
theorem oneAddress_publish : ∃ s got, SsnAvailReachable oneAddress.state s ∧
    s.op = .publish () .one got ∧ s.entered = 1 := by
  have hlast : SsnAvailReachable oneAddress.state (lastBatch oneAddress.state) :=
    .toLastBatch .start rfl rfl rfl
  exact hlast.publish rfl rfl (by decide) (by decide)

/-- A failing copy of the read index loses the address. -/
theorem oneAddress_lost :
    ¬ ∀ (start : SsnAvailStart Unit) (s : SsnAvailState Unit),
      SsnAvailReachable start.state s → s.entered < 2 ^ 64 →
        s.HandedOutOnce start.blocks := by
  intro honce
  obtain ⟨s, got, hreach, hop, hentered⟩ := oneAddress_publish
  have hlost := hreach.step (.copyRidx false hop)
  have hfew : (s.copyRidx () .one got false).entered < 2 ^ 64 := by
    show s.entered < 2 ^ 64
    rw [hentered]
    decide
  exact ((hlost.inv hfew).handedOutOnce_iff_not_mem hfew).mp
    (honce oneAddress _ hlost hfew) List.mem_cons_self

end OneAddress

section Calls

variable {F : Type} [DecidableEq F] {s : SsnAvailState F} {fifo : F}
  {batch : SsnBatch}

theorem SsnAvailReachable.trans {s' s'' : SsnAvailState F}
    (h : SsnAvailReachable s s') (h' : SsnAvailReachable s' s'') :
    SsnAvailReachable s s'' := by
  induction h' with
  | start => exact h
  | step _ hstep ih => exact ih.step hstep

/-- A fifo alone leads to a state with this channel, call and contents of the
fifo, and has handed these addresses out. -/
structure SsnAvailState.Ends (s : SsnAvailState F) (fifo : F)
    (call : Option SsnBatch) (chan : SsnChan) (next : SsnFifo)
    (given : List Nat) (s' : SsnAvailState F) : Prop where
  reached : SsnAvailReachable s s'
  op : s'.op = .free
  call : s'.call = Function.update s.call fifo call
  chan : s'.chan = chan
  fifos : s'.fifos = Function.update s.fifos fifo next
  handedOut : s'.handedOut = given ++ s.handedOut

/-- What one try of a batch leads to. -/
def SsnAvailState.EndsTry (s : SsnAvailState F) (fifo : F) (batch : SsnBatch)
    (s' : SsnAvailState F) : Fre × SsnChan × List Nat → Prop
  | (.success, chan, got) =>
      s.Ends fifo none chan ((s.fifos fifo).fill batch got).pop
        [((s.fifos fifo).fill batch got).top] s'
  | (_, chan, _) => s.Ends fifo batch.next chan (s.fifos fifo) [] s'

theorem SsnAvailState.ends_fail {t : SsnAvailState F}
    (h : SsnAvailReachable s (t.fail fifo batch)) (hcall : t.call = s.call)
    (hfifos : t.fifos = s.fifos) (hout : t.handedOut = s.handedOut) :
    s.Ends fifo batch.next t.chan (s.fifos fifo) [] (t.fail fifo batch) where
  reached := h
  op := rfl
  call := by rw [SsnAvailState.fail, hcall]
  chan := rfl
  fifos := hfifos.trans (Function.update_eq_self fifo s.fifos).symm
  handedOut := hout

/-- From the last copy on, the try goes as in `frcore_ssn_chan_avail_get`. -/
theorem SsnAvailState.endsTry_publish {t : SsnAvailState F} {got : List Nat}
    (h : SsnAvailReachable s t) (hop : t.op = .publish fifo batch got)
    (hcall : t.call = s.call) (hfifos : t.fifos = s.fifos)
    (hout : t.handedOut = s.handedOut) (ok : Bool) :
    s.EndsTry fifo batch (t.copyRidx fifo batch got ok)
      (if !ok then (.dma, (t.store batch).chan, [])
      else (.success, ((t.store batch).keep fifo batch got).chan, got)) := by
  have hstep := h.step (.copyRidx ok hop)
  cases ok with
  | false =>
      refine ⟨hstep, rfl, ?_, rfl, ?_, hout⟩
      · show Function.update t.call fifo batch.next = _
        rw [hcall]
      · exact hfifos.trans (Function.update_eq_self fifo s.fifos).symm
  | true =>
      have hfill : ((t.store batch).keep fifo batch got).fifos fifo =
          (s.fifos fifo).fill batch got := by
        rw [← hfifos]
        exact Function.update_self ..
      refine ⟨hstep, rfl, ?_, rfl, ?_, ?_⟩
      · show Function.update t.call fifo none = _
        rw [hcall]
      · show Function.update (Function.update t.fifos fifo _) fifo
          (((t.store batch).keep fifo batch got).fifos fifo).pop = _
        rw [Function.update_idem, hfill, hfifos]
      · show (((t.store batch).keep fifo batch got).fifos fifo).top ::
          t.handedOut = _
        rw [hfill, hout]
        rfl

/-- The steps of a fifo are those of `frcore_ssn_chan_avail_get`. -/
theorem SsnAvailReachable.availGet (hlock : s.op = .free)
    (hcall : s.call fifo = some batch) (dma : AvailDma) :
    ∃ s', s.EndsTry fifo batch s'
      (ssnChanAvailGet dma s.chan batch.size) := by
  have hwidx := SsnAvailReachable.start.step
    (.copyWidx dma.widx hcall hlock)
  unfold ssnChanAvailGet
  unfold SsnAvailState.copyWidx at hwidx
  split
  · rename_i hfailed
    rw [if_pos hfailed] at hwidx
    exact ⟨_, SsnAvailState.ends_fail hwidx rfl rfl rfl⟩
  · rename_i hsynced
    rw [if_neg hsynced] at hwidx
    simp only
    split
    · rename_i hshort
      have hshort : sub64 s.sync.chan.availWidx s.sync.chan.availRidx <
          batch.size := hshort
      rw [if_pos hshort] at hwidx
      exact ⟨_, SsnAvailState.ends_fail hwidx rfl rfl rfl⟩
    · rename_i henough
      have henough : ¬ sub64 s.sync.chan.availWidx s.sync.chan.availRidx <
          batch.size := henough
      rw [if_neg henough] at hwidx
      have hfirst := hwidx.step (.copyFirst dma.first rfl)
      unfold SsnAvailState.copyFirst at hfirst
      split
      · rename_i hfailed
        rw [if_pos hfailed] at hfirst
        exact ⟨_, SsnAvailState.ends_fail hfirst rfl rfl rfl⟩
      · rename_i hread
        rw [if_neg hread] at hfirst
        by_cases hsplit :
            SsnChan.len1 s.chan.availRidx batch.size < batch.size
        · have hsecond := hfirst.step (.copySecond dma.second (if_pos hsplit))
          unfold SsnAvailState.copySecond at hsecond
          split
          · rename_i hfailed
            rw [if_pos hfailed.2] at hsecond
            exact ⟨_, SsnAvailState.ends_fail hsecond rfl rfl rfl⟩
          · rename_i hcopied
            rw [if_neg fun hfailed => hcopied ⟨hsplit, hfailed⟩] at hsecond
            exact ⟨_, SsnAvailState.endsTry_publish hsecond rfl rfl rfl rfl
              dma.ridx⟩
        · rw [if_neg fun hfailed => hsplit hfailed.1, if_neg hsplit]
          exact ⟨_, SsnAvailState.endsTry_publish hfirst (if_neg hsplit) rfl
            rfl rfl dma.ridx⟩

section Whole

variable {chan chan' : SsnChan} {call : Option SsnBatch} {next : SsnFifo}
  {given : List Nat} {t t' : SsnAvailState F}

/-- A try that has failed changes nothing for the next one. -/
theorem SsnAvailState.Ends.trans
    (h : s.Ends fifo (some batch) chan (s.fifos fifo) [] t)
    (h' : t.Ends fifo call chan' next given t') :
    s.Ends fifo call chan' next given t' where
  reached := h.reached.trans h'.reached
  op := h'.op
  call := by rw [h'.call, h.call, Function.update_idem]
  chan := h'.chan
  fifos := by rw [h'.fifos, h.fifos, Function.update_idem]
  handedOut := by rw [h'.handedOut, h.handedOut, List.nil_append]

theorem SsnAvailState.Ends.trans_try
    (h : s.Ends fifo (some batch) chan (s.fifos fifo) [] t)
    {result : Fre × SsnChan × List Nat}
    (htry : t.EndsTry fifo batch t' result) :
    s.EndsTry fifo batch t' result := by
  have hfifo : t.fifos fifo = s.fifos fifo := by
    rw [h.fifos, Function.update_self]
  unfold SsnAvailState.EndsTry at htry ⊢
  rw [hfifo] at htry
  rcases result with ⟨rv, chan, got⟩
  cases rv with
  | success => exact h.trans htry
  | _ => exact h.trans htry

theorem SsnAvailState.Ends.availGet
    (h : s.Ends fifo (some batch) chan (s.fifos fifo) [] t)
    (dma : AvailDma) :
    ∃ s', s.EndsTry fifo batch s' (ssnChanAvailGet dma chan batch.size) := by
  have hcall : t.call fifo = some batch := by
    rw [h.call, Function.update_self]
  obtain ⟨s', htry⟩ := SsnAvailReachable.availGet h.op hcall dma
  rw [h.chan] at htry
  exact ⟨s', h.trans_try htry⟩

theorem SsnAvailState.ends_miss (hlock : s.op = .free)
    (hidle : s.call fifo = none) (hnone : (s.fifos fifo).availRdx = 0) :
    s.Ends fifo (some .thousand) s.chan (s.fifos fifo) [] (s.miss fifo) where
  reached := SsnAvailReachable.start.step (.miss fifo hidle hnone)
  op := hlock
  call := rfl
  chan := rfl
  fifos := (Function.update_eq_self fifo s.fifos).symm
  handedOut := rfl

theorem SsnAvailState.ends_hit (hlock : s.op = .free)
    (hidle : s.call fifo = none) (hsome : 0 < (s.fifos fifo).availRdx) :
    s.Ends fifo none s.chan (s.fifos fifo).pop [(s.fifos fifo).top]
      (s.give fifo) where
  reached := SsnAvailReachable.start.step (.hit fifo hidle hsome)
  op := hlock
  call := by
    rw [← hidle, Function.update_eq_self]
    rfl
  chan := rfl
  fifos := rfl
  handedOut := rfl

/-- A fifo alone leads to a state with this result of a call. -/
def SsnAvailState.EndsCall (s : SsnAvailState F) (fifo : F)
    (result : Option Nat × SsnChan × SsnFifo) : Prop :=
  ∃ s', s.Ends fifo none result.2.1 result.2.2 result.1.toList s'

/-- After a try, the call returns, or it goes on as `rest` does. -/
def SsnFifo.afterTry (fifo : SsnFifo) (batch : SsnBatch)
    (rest : SsnChan → Option Nat × SsnChan × SsnFifo) :
    Fre × SsnChan × List Nat → Option Nat × SsnChan × SsnFifo
  | (.success, chan, got) =>
      (some (fifo.fill batch got).top, chan, (fifo.fill batch got).pop)
  | (_, chan, _) => rest chan

theorem SsnAvailState.endsCall_try {result : Fre × SsnChan × List Nat}
    (h : s.EndsTry fifo batch t result)
    {rest : SsnChan → Option Nat × SsnChan × SsnFifo}
    (hrest : ∀ chan, s.Ends fifo batch.next chan (s.fifos fifo) [] t →
      s.EndsCall fifo (rest chan)) :
    s.EndsCall fifo ((s.fifos fifo).afterTry batch rest result) := by
  rcases result with ⟨rv, chan, got⟩
  cases rv with
  | success => exact ⟨t, h⟩
  | _ => exact hrest chan h

/-- The steps of a fifo are those of `frcore_ssn_get_one_block_addr`. -/
theorem SsnAvailReachable.getOne (hlock : s.op = .free)
    (hidle : s.call fifo = none) (dma : SsnBatch → AvailDma) :
    s.EndsCall fifo
      (frcoreSsnGetOneBlockAddr dma s.chan (s.fifos fifo)) := by
  unfold frcoreSsnGetOneBlockAddr
  split
  · rename_i hnone
    have hmiss := SsnAvailState.ends_miss hlock hidle hnone
    obtain ⟨_, hthousand⟩ := hmiss.availGet (dma .thousand)
    refine SsnAvailState.endsCall_try hthousand fun chan hfail => ?_
    obtain ⟨_, hhundred⟩ := hfail.availGet (dma .hundred)
    refine SsnAvailState.endsCall_try hhundred fun chan hfail => ?_
    obtain ⟨_, hone⟩ := hfail.availGet (dma .one)
    exact SsnAvailState.endsCall_try hone fun chan hfail => ⟨_, hfail⟩
  · rename_i hsome
    exact ⟨_, SsnAvailState.ends_hit hlock hidle (Nat.pos_of_ne_zero hsome)⟩

end Whole

end Calls

end Barley
