/-
The lookup of a packet in the two-tuple table.  Whatever the history of the
table, the hashed lookup finds the rule that a scan of all rules in use would
find: kind by kind, and within a kind in the order in which they were set.
-/
import Barley.MppTuple
import Barley.TwoTupleInvariant
import Mathlib.Data.Fin.VecNotation

namespace Barley

/-- The value of `FRE_FAIL`. -/
def freFail : Nat := 1

/-- `one_tuple[4]`, the fields in the order of the kinds. -/
def MppTuple.oneTuple (tuple : MppTuple) : Fin 4 → Nat :=
  ![tuple.sip.toNat, tuple.dip.toNat, tuple.sp.toNat, tuple.dp.toNat]

/-- One round of the loop of `filter_lookup_by_tuple`, with `none` if the loop
goes on. -/
def filterLookupRound (crc : Nat → Nat → Fin frcoreMaxFilters)
    (acl : FrcoreAcl) (tuple : MppTuple) (i : Fin 4) : Option Nat :=
  let hash := (crc (tuple.oneTuple i) tuple.proto.toNat).val
  match aclGetHashTable (i + 1) hash with
  | none => some freFail
  | some slot =>
      let bucket := acl.aclHashTable slot
      if bucket.head = [] ∧ bucket.bucketDepth = 0 then none
      else
        bucket.head.find? fun index =>
          (acl.entry index).oneTuple = tuple.oneTuple i ∧
            (acl.entry index).proto = tuple.proto.toNat

/-- `filter_lookup_by_tuple`. -/
def filterLookupByTuple (crc : Nat → Nat → Fin frcoreMaxFilters)
    (acl : FrcoreAcl) (tuple : MppTuple) : Nat :=
  ((List.finRange 4).findSome? (filterLookupRound crc acl tuple)).getD 0

/-- The rule is of the kind and has the values of the packet. -/
def TwoTupleFilter.MatchesKind (filter : TwoTupleFilter) (tuple : MppTuple)
    (i : Fin 4) : Prop :=
  filter.aclType = i + 1 ∧ filter.oneTuple = tuple.oneTuple i ∧
    filter.proto = tuple.proto.toNat

instance (filter : TwoTupleFilter) (tuple : MppTuple) (i : Fin 4) :
    Decidable (filter.MatchesKind tuple i) :=
  inferInstanceAs (Decidable (_ ∧ _ ∧ _))

/-- The tags of the rules in use, in the order in which they were last set. -/
def FilterCall.order (tags : List Nat) : FilterCall → List Nat
  | .set index args =>
      if index ∉ aclIndexes ∨ args.aclType < frcAclSip ∨
          frcAclDp < args.aclType then tags
      else tags.erase index ++ [index]
  | .del index => tags.erase index

def setOrder (calls : List FilterCall) : List Nat :=
  calls.foldl FilterCall.order []

/-- A scan of the rules with the given tags: the kinds one after the other,
and in each the tags in their order. -/
def linearLookup (acl : FrcoreAcl) (tags : List Nat) (tuple : MppTuple) :
    Nat :=
  (((List.finRange 4).flatMap fun i => tags.filter fun index =>
    (acl.entry index).MatchesKind tuple i).head?).getD 0

/-- The tags list the rules in use, and every bucket lists its own of them in
the same order. -/
structure FrcoreAcl.InOrder (acl : FrcoreAcl) (tags : List Nat) : Prop where
  nodup : tags.Nodup
  mem_iff : ∀ index, index ∈ tags ↔
    index ∈ aclIndexes ∧ (acl.entry index).enable ≠ 0
  heads : ∀ slot, (acl.aclHashTable slot).head =
    tags.filter fun index => acl.place index = some slot

theorem frcoreFilterInit_inOrder : frcoreFilterInit.InOrder [] where
  nodup := List.nodup_nil
  mem_iff := fun index => by simp [FrcoreAcl.entry, frcoreFilterInit,
    TwoTupleFilter.zero]
  heads := fun _ => rfl

section Steps

variable {before after : FrcoreAcl} {index : Nat}

theorem OthersKept.entry_eq (h : OthersKept index before after)
    (hindex : index ∈ aclIndexes) {other : Nat} (hother : other ∈ aclIndexes)
    (hne : other ≠ index) : after.entry other = before.entry other := by
  refine h.entries (other - 1) ?_
  simp only [aclIndexes, aclIndexStart, Finset.mem_Icc] at hindex hother
  omega

theorem OthersKept.place_eq (h : OthersKept index before after)
    (hindex : index ∈ aclIndexes) {other : Nat} (hne : other ≠ index) :
    after.place other = before.place other := by
  unfold FrcoreAcl.place
  by_cases hother : other ∈ aclIndexes
  · rw [h.entry_eq hindex hother hne]
  · rw [if_neg fun hin => hother hin.1, if_neg fun hin => hother hin.1]

variable {crc : Nat → Nat → Fin frcoreMaxFilters} {tags : List Nat}
  (horder : before.InOrder tags) (hkept : OthersKept index before after)
  (hindex : index ∈ aclIndexes)

include horder hkept hindex

/-- In every bucket, what is left without the tag is in order. -/
theorem FrcoreAcl.InOrder.heads_others (slot : Nat) :
    (after.aclHashTable slot).head.filter (fun k => k ≠ index) =
      (tags.erase index).filter fun k => after.place k = some slot := by
  rw [hkept.order slot, horder.heads slot, horder.nodup.erase_eq_filter,
    List.filter_filter, List.filter_filter]
  refine List.filter_congr fun k _ => ?_
  by_cases hk : k = index
  · simp [hk]
  · rw [hkept.place_eq hindex hk]
    simp [hk]

theorem FrcoreAcl.InOrder.mem_others (k : Nat) :
    k ∈ tags.erase index ↔
      k ≠ index ∧ k ∈ aclIndexes ∧ (after.entry k).enable ≠ 0 := by
  rw [horder.nodup.mem_erase_iff, horder.mem_iff]
  refine and_congr_right fun hne => and_congr_right fun hk => ?_
  rw [hkept.entry_eq hindex hk hne]

theorem FrcoreAcl.InOrder.remove (hsound : after.Sound crc)
    (hempty : (after.entry index).enable = 0) :
    after.InOrder (tags.erase index) where
  nodup := horder.nodup.erase index
  mem_iff := by
    intro k
    rw [horder.mem_others hkept hindex]
    constructor
    · exact fun h => h.2
    · intro h
      refine ⟨?_, h⟩
      rintro rfl
      exact h.2 hempty
  heads := by
    intro slot
    rw [← horder.heads_others hkept hindex slot, List.filter_eq_self.mpr]
    intro k hk
    have hplace := (hsound.located.mem_iff slot k).mp hk
    rw [decide_eq_true_iff]
    rintro rfl
    rw [place_eq_none hempty] at hplace
    cases hplace

theorem FrcoreAcl.InOrder.append (hsound : after.Sound crc)
    (henable : (after.entry index).enable ≠ 0) {slot : Nat} {front : List Nat}
    (hlast : (after.aclHashTable slot).head = front ++ [index]) :
    after.InOrder (tags.erase index ++ [index]) where
  nodup := by
    refine List.Nodup.append (horder.nodup.erase index)
      (List.nodup_singleton index) ?_
    intro k hk hsingle
    exact ((horder.mem_others hkept hindex k).mp hk).1
      (List.mem_singleton.mp hsingle)
  mem_iff := by
    intro k
    rw [List.mem_append, horder.mem_others hkept hindex, List.mem_singleton]
    by_cases hk : k = index
    · subst hk
      simp [hindex, henable]
    · simp [hk]
  heads := by
    intro other
    have hplace : after.place index = some slot := by
      refine (hsound.located.mem_iff slot index).mp ?_
      rw [hlast]
      exact List.mem_append_right _ (List.mem_singleton_self index)
    have hothers := horder.heads_others hkept hindex other
    rw [List.filter_append, ← hothers]
    by_cases hother : other = slot
    · subst hother
      have hnodup := hsound.located.nodup other
      rw [hlast] at hnodup
      have hfront : front.filter (fun k => k ≠ index) = front := by
        rw [List.filter_eq_self]
        intro k hk
        rw [decide_eq_true_iff]
        rintro rfl
        exact (List.nodup_append.mp hnodup).2.2 k hk k
          (List.mem_singleton_self k) rfl
      rw [hlast, List.filter_append, hfront]
      simp [hplace]
    · have hnot : index ∉ (after.aclHashTable other).head := by
        intro hmem
        rw [hsound.located.mem_iff other index, hplace] at hmem
        exact hother (Option.some.inj hmem).symm
      have hnone : ([index].filter fun k => after.place k = some other) =
          [] := by
        rw [List.filter_eq_nil_iff]
        intro k hk
        rw [List.mem_singleton.mp hk, hplace, decide_eq_true_iff]
        exact fun hsame => hother (Option.some.inj hsame).symm
      rw [hnone, List.append_nil, List.filter_eq_self.mpr]
      intro k hk
      rw [decide_eq_true_iff]
      rintro rfl
      exact hnot hk

end Steps

section Runs

variable {crc : Nat → Nat → Fin frcoreMaxFilters} {acl : FrcoreAcl}
  {index : Nat} {args : FilterArgs}

/-- A new cell goes to the end of its bucket. -/
theorem aclAddFilter_last (hlo : frcAclSip ≤ args.aclType)
    (hhi : args.aclType ≤ frcAclDp) :
    ((aclAddOneFilterToHashTable true (aclAddOneFilter acl index args
        (crc args.oneTuple args.proto)) index).2.entry index).enable ≠ 0 ∧
      ∃ slot front, ((aclAddOneFilterToHashTable true (aclAddOneFilter acl
        index args (crc args.oneTuple args.proto)) index).2.aclHashTable
          slot).head = front ++ [index] := by
  have hentry : (aclAddOneFilter acl index args
      (crc args.oneTuple args.proto)).entry index =
        (acl.entry index).write index args (crc args.oneTuple args.proto) :=
    entry_update_self acl _ _ _
  obtain ⟨slot, htable⟩ : ∃ slot, aclGetHashTable
      ((aclAddOneFilter acl index args (crc args.oneTuple args.proto)).entry
        index).aclType
      ((aclAddOneFilter acl index args (crc args.oneTuple args.proto)).entry
        index).hash = some slot := by
    rw [hentry]
    exact ⟨_, aclGetHashTable_eq hlo hhi (crc _ _).isLt⟩
  rw [aclAddOneFilterToHashTable, htable]
  simp only [Bool.not_true, Bool.false_eq_true, if_false]
  refine ⟨?_, slot, (acl.aclHashTable slot).head, ?_⟩
  · show ((aclAddOneFilter acl index args
      (crc args.oneTuple args.proto)).entry index).enable ≠ 0
    rw [hentry]
    exact Nat.one_ne_zero
  · rw [Function.update_self]
    rfl

/-- A rule that is set has the last cell of its bucket. -/
theorem FilterCall.set_last (hsound : acl.Sound crc)
    (hrange : ¬ (FilterCall.set index args).OutOfRange) :
    (((FilterCall.set index args).run crc acl).2.entry index).enable ≠ 0 ∧
      ∃ slot front, (((FilterCall.set index args).run crc acl).2.aclHashTable
        slot).head = front ++ [index] := by
  obtain ⟨_, ⟨hlo, hhi⟩, free, _, _, _, hrun⟩ :=
    FilterCall.run_set hsound hrange
  rw [hrun]
  exact aclAddFilter_last hlo hhi

/-- A rule that is deleted is not in use. -/
theorem FilterCall.del_empty (hsound : acl.Sound crc)
    (hindex : index ∈ aclIndexes) :
    (((FilterCall.del index).run crc acl).2.entry index).enable = 0 := by
  rw [FilterCall.run, aclDelFilter, if_neg (mem_aclIndexes.mp hindex)]
  by_cases henable : (acl.entry index).enable = 0
  · rw [if_pos henable]
    exact henable
  · rw [if_neg henable]
    exact (aclRemoveFilter_sound hsound hindex henable).2.2.1

/-- Every call keeps the order. -/
theorem FilterCall.run_inOrder (hsound : acl.Sound crc) {tags : List Nat}
    (horder : acl.InOrder tags) (call : FilterCall) :
    (call.run crc acl).2.InOrder (call.order tags) := by
  obtain ⟨hafter, hkept⟩ := FilterCall.run_sound hsound call
  cases call with
  | set index args =>
      by_cases hrange : (FilterCall.set index args).OutOfRange
      · have hsame : (FilterCall.set index args).order tags = tags :=
          if_pos hrange
        rw [FilterCall.run_outOfRange hrange, hsame]
        exact horder
      · obtain ⟨henable, slot, front, hlast⟩ :=
          FilterCall.set_last hsound hrange
        have hlater : (FilterCall.set index args).order tags =
          tags.erase index ++ [index] := if_neg hrange
        have hindex := not_not.mp (not_or.mp hrange).1
        rw [hlater]
        exact horder.append hkept hindex hafter henable hlast
  | del index =>
      rw [FilterCall.order]
      by_cases hindex : index ∈ aclIndexes
      · exact horder.remove hkept hindex hafter
          (FilterCall.del_empty hsound hindex)
      · have hnot : index ∉ tags := fun hmem =>
          hindex ((horder.mem_iff index).mp hmem).1
        have hrange : (FilterCall.del index).OutOfRange := hindex
        rw [FilterCall.run_outOfRange hrange, List.erase_of_not_mem hnot]
        exact horder

theorem runFilter_inOrder (crc : Nat → Nat → Fin frcoreMaxFilters)
    (calls : List FilterCall) :
    (runFilter crc calls).InOrder (setOrder calls) := by
  induction calls using List.reverseRecOn with
  | nil => exact frcoreFilterInit_inOrder
  | append_singleton calls call ih =>
      rw [runFilter, setOrder, List.foldl_concat, List.foldl_concat]
      exact FilterCall.run_inOrder (runFilter_sound crc calls) ih call

end Runs

section Lookup

variable {crc : Nat → Nat → Fin frcoreMaxFilters} {acl : FrcoreAcl}
  {tags : List Nat}

/-- The bucket of a kind and of the hash of a value holds every rule of that
kind and value, and no rule of another kind. -/
theorem FrcoreAcl.Sound.place_eq_iff (hsound : acl.Sound crc) {index : Nat}
    (hindex : index ∈ aclIndexes) (henable : (acl.entry index).enable ≠ 0)
    (tuple : MppTuple) (i : Fin 4)
    (hone : (acl.entry index).oneTuple = tuple.oneTuple i)
    (hproto : (acl.entry index).proto = tuple.proto.toNat) :
    acl.place index = some (frcoreMaxFilters * i +
        crc (tuple.oneTuple i) tuple.proto.toNat) ↔
      (acl.entry index).aclType = i + 1 := by
  obtain ⟨hlo, hhi, hhash⟩ := hsound.valid index hindex henable
  rw [hone, hproto] at hhash
  have hlt := (crc (tuple.oneTuple i) tuple.proto.toNat).isLt
  rw [FrcoreAcl.place, if_pos ⟨hindex, henable⟩, hhash,
    aclGetHashTable_eq hlo hhi hlt, Option.some.injEq]
  simp only [frcAclSip, frcoreMaxFilters] at hlo ⊢
  omega

/-- One round finds the first rule of its kind that matches. -/
theorem filterLookupRound_eq (hsound : acl.Sound crc)
    (horder : acl.InOrder tags) (tuple : MppTuple) (i : Fin 4) :
    filterLookupRound crc acl tuple i =
      (tags.filter fun index => (acl.entry index).MatchesKind tuple i).head? := by
  have hlt := (crc (tuple.oneTuple i) tuple.proto.toNat).isLt
  have htable : aclGetHashTable (i + 1)
      (crc (tuple.oneTuple i) tuple.proto.toNat) =
        some (frcoreMaxFilters * i +
          crc (tuple.oneTuple i) tuple.proto.toNat) := by
    rw [aclGetHashTable_eq (Nat.le_add_left 1 i) i.isLt hlt,
      Nat.add_sub_cancel]
  simp only [filterLookupRound, htable]
  rw [horder.heads]
  split
  · -- an empty bucket has no rule that matches
    have hnone := And.left ‹_›
    rw [List.filter_eq_nil_iff.mpr]
    · rfl
    · intro index hmem hmatch
      rw [decide_eq_true_iff] at hmatch
      obtain ⟨hindex, henable⟩ := (horder.mem_iff index).mp hmem
      have hplace := (hsound.place_eq_iff hindex henable tuple i hmatch.2.1
        hmatch.2.2).mpr hmatch.1
      rw [List.filter_eq_nil_iff] at hnone
      exact hnone index hmem (decide_eq_true hplace)
  · rw [← List.head?_filter, List.filter_filter]
    congr 1
    refine List.filter_congr fun index hmem => ?_
    obtain ⟨hindex, henable⟩ := (horder.mem_iff index).mp hmem
    rw [← Bool.decide_and, decide_eq_decide, TwoTupleFilter.MatchesKind]
    constructor
    · rintro ⟨⟨hone, hproto⟩, hplace⟩
      exact ⟨(hsound.place_eq_iff hindex henable tuple i hone hproto).mp
        hplace, hone, hproto⟩
    · rintro ⟨hkind, hone, hproto⟩
      exact ⟨⟨hone, hproto⟩, (hsound.place_eq_iff hindex henable tuple i hone
        hproto).mpr hkind⟩

theorem filterLookupByTuple_of_inOrder (hsound : acl.Sound crc)
    (horder : acl.InOrder tags) (tuple : MppTuple) :
    filterLookupByTuple crc acl tuple = linearLookup acl tags tuple := by
  rw [filterLookupByTuple, linearLookup, List.head?_flatMap]
  congr 2
  funext i
  exact filterLookupRound_eq hsound horder tuple i

theorem linearLookup_eq_zero_iff (horder : acl.InOrder tags)
    (tuple : MppTuple) :
    linearLookup acl tags tuple = 0 ↔
      ∀ index ∈ aclIndexes, (acl.entry index).enable ≠ 0 →
        ∀ i, ¬ (acl.entry index).MatchesKind tuple i := by
  rw [linearLookup]
  generalize hcandidates : ((List.finRange 4).flatMap fun i =>
    tags.filter fun index => (acl.entry index).MatchesKind tuple i) =
      candidates
  have hmem : ∀ index, index ∈ candidates ↔
      (index ∈ aclIndexes ∧ (acl.entry index).enable ≠ 0) ∧
        ∃ i, (acl.entry index).MatchesKind tuple i := by
    intro index
    rw [← hcandidates, ← horder.mem_iff]
    simp only [List.mem_flatMap, List.mem_finRange, true_and, List.mem_filter,
      decide_eq_true_iff]
    exact exists_and_left
  cases candidates with
  | nil =>
      refine iff_of_true rfl fun index hindex henable i hmatch => ?_
      have hin := (hmem index).mpr ⟨⟨hindex, henable⟩, i, hmatch⟩
      cases hin
  | cons first rest =>
      obtain ⟨⟨hindex, henable⟩, i, hmatch⟩ :=
        (hmem first).mp List.mem_cons_self
      refine iff_of_false ?_ fun hnone => hnone first hindex henable i hmatch
      show first ≠ 0
      rw [aclIndexes, Finset.mem_Icc, aclIndexStart] at hindex
      omega

end Lookup

/-- After every history of the table, the lookup of a packet returns what a
scan of the rules in use returns: the first that matches, in the order of the
kinds and within a kind in the order of setting; and 0 exactly if none
matches. -/
theorem filterLookupByTuple_linear (crc : Nat → Nat → Fin frcoreMaxFilters)
    (calls : List FilterCall) (tuple : MppTuple) :
    filterLookupByTuple crc (runFilter crc calls) tuple =
        linearLookup (runFilter crc calls) (setOrder calls) tuple ∧
      (∀ index, index ∈ setOrder calls ↔ index ∈ aclIndexes ∧
        ((runFilter crc calls).entry index).enable ≠ 0) ∧
      (filterLookupByTuple crc (runFilter crc calls) tuple = 0 ↔
        ∀ index ∈ aclIndexes,
          ((runFilter crc calls).entry index).enable ≠ 0 →
            ∀ i, ¬ ((runFilter crc calls).entry index).MatchesKind tuple
              i) := by
  have hsound := runFilter_sound crc calls
  have horder := runFilter_inOrder crc calls
  have hlookup := filterLookupByTuple_of_inOrder hsound horder tuple
  refine ⟨hlookup, horder.mem_iff, ?_⟩
  rw [hlookup]
  exact linearLookup_eq_zero_iff horder tuple

end Barley
