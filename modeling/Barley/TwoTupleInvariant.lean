/-
The two-tuple table over whole histories.  Every rule in use has one cell, in
the bucket of its kind and hash, and the counters of the table and of each
bucket agree with what they count.
-/
import Barley.Buckets
import Barley.TwoTupleTable
import Mathlib.Order.Interval.Finset.Nat

namespace Barley

/-- The tags of the rules. -/
def aclIndexes : Finset Nat := Finset.Icc aclIndexStart aclMax

/-- The bucket in which a tag belongs, if its rule is in use. -/
def FrcoreAcl.place (acl : FrcoreAcl) (index : Nat) : Option Nat :=
  if index ∈ aclIndexes ∧ (acl.entry index).enable ≠ 0 then
    aclGetHashTable (acl.entry index).aclType (acl.entry index).hash
  else none

/-- The counters of a bucket agree with its list. -/
structure AclHashTable.Counted (bucket : AclHashTable) : Prop where
  depth : bucket.bucketDepth = bucket.head.length
  cells : sub64 bucket.totalCell bucket.delCell = bucket.bucketDepth

/-- The kind of a rule is one of the four, and its hash is the one of its
fields. -/
structure TwoTupleFilter.Valid (crc : Nat → Nat → Fin frcoreMaxFilters)
    (filter : TwoTupleFilter) : Prop where
  first : frcAclSip ≤ filter.aclType
  last : filter.aclType ≤ frcAclDp
  hash : filter.hash = crc filter.oneTuple filter.proto

/-- What every call keeps. -/
structure FrcoreAcl.Sound (crc : Nat → Nat → Fin frcoreMaxFilters)
    (acl : FrcoreAcl) : Prop where
  located : Buckets.Located acl.place fun slot => (acl.aclHashTable slot).head
  valid : ∀ index ∈ aclIndexes, (acl.entry index).enable ≠ 0 →
    (acl.entry index).Valid crc
  counted : acl.numFilters =
    (aclIndexes.filter fun index => (acl.place index).isSome).card
  buckets : ∀ slot, (acl.aclHashTable slot).Counted

theorem aclGetHashTable_eq {aclType hash : Nat} (hlo : frcAclSip ≤ aclType)
    (hhi : aclType ≤ frcAclDp) (hhash : hash < frcoreMaxFilters) :
    aclGetHashTable aclType hash =
      some (frcoreMaxFilters * (aclType - 1) + hash) := by
  simp only [frcAclSip] at hlo
  rw [aclGetHashTable, if_neg, if_neg (Nat.not_le.mpr hhash)]
  simp only [frcAclUnknown]
  omega

theorem aclGetHashTable_lt {aclType hash slot : Nat}
    (h : aclGetHashTable aclType hash = some slot) :
    slot < frcoreAclHashTableSize := by
  unfold aclGetHashTable at h
  split at h
  · cases h
  · split at h
    · cases h
    · rw [Option.some.injEq] at h
      simp only [frcAclUnknown, frcAclDp, frcoreMaxFilters,
        frcoreAclHashTableSize] at *
      omega

theorem place_eq_none {acl : FrcoreAcl} {index : Nat}
    (h : (acl.entry index).enable = 0) : acl.place index = none := by
  rw [FrcoreAcl.place, if_neg fun hin => hin.2 h]

section Update

variable (acl : FrcoreAcl) {index : Nat} (hindex : index ∈ aclIndexes)
  (filter : TwoTupleFilter) (numFilters : Nat)
  (aclHashTable : Nat → AclHashTable)

theorem entry_update_self :
    FrcoreAcl.entry ⟨numFilters,
      Function.update acl.filterArr (index - 1) filter, aclHashTable⟩ index =
      filter := by
  simp [FrcoreAcl.entry]

include hindex

theorem entry_update_of_ne {other : Nat} (hother : other ∈ aclIndexes)
    (hne : other ≠ index) :
    FrcoreAcl.entry ⟨numFilters,
      Function.update acl.filterArr (index - 1) filter, aclHashTable⟩ other =
      acl.entry other := by
  have hslot : other - 1 ≠ index - 1 := by
    simp only [aclIndexes, aclIndexStart, Finset.mem_Icc] at hindex hother
    omega
  exact Function.update_of_ne hslot filter acl.filterArr

/-- A changed entry changes only the place of its own tag. -/
theorem place_update :
    FrcoreAcl.place ⟨numFilters,
        Function.update acl.filterArr (index - 1) filter, aclHashTable⟩ =
      Function.update acl.place index
        (if filter.enable ≠ 0 then aclGetHashTable filter.aclType filter.hash
        else none) := by
  funext other
  by_cases hother : other = index
  · subst hother
    rw [Function.update_self, FrcoreAcl.place, entry_update_self]
    simp only [hindex, true_and]
  · rw [Function.update_of_ne hother, FrcoreAcl.place, FrcoreAcl.place]
    by_cases hmem : other ∈ aclIndexes
    · rw [entry_update_of_ne acl hindex filter numFilters aclHashTable hmem
        hother]
    · rw [if_neg fun h => hmem h.1, if_neg fun h => hmem h.1]

theorem valid_update {crc : Nat → Nat → Fin frcoreMaxFilters}
    (hvalid : ∀ other ∈ aclIndexes, (acl.entry other).enable ≠ 0 →
      (acl.entry other).Valid crc)
    (hfilter : filter.enable ≠ 0 → filter.Valid crc) :
    ∀ other ∈ aclIndexes,
      (FrcoreAcl.entry ⟨numFilters, Function.update acl.filterArr (index - 1)
        filter, aclHashTable⟩ other).enable ≠ 0 →
      (FrcoreAcl.entry ⟨numFilters, Function.update acl.filterArr (index - 1)
        filter, aclHashTable⟩ other).Valid crc := by
  intro other hother
  by_cases hne : other = index
  · subst hne
    rw [entry_update_self]
    exact hfilter
  · rw [entry_update_of_ne acl hindex filter numFilters aclHashTable hother
      hne]
    exact hvalid other hother

end Update

theorem frcoreFilterInit_sound (crc : Nat → Nat → Fin frcoreMaxFilters) :
    frcoreFilterInit.Sound crc := by
  have hplace : ∀ index, frcoreFilterInit.place index = none := fun index =>
    place_eq_none rfl
  refine ⟨⟨?_, fun _ => List.nodup_nil⟩, fun index _ hne => absurd rfl hne,
    ?_, fun _ => ⟨rfl, ?_⟩⟩
  · intro slot index
    rw [hplace]
    simp [frcoreFilterInit]
  · show 0 = _
    simp [hplace]
  · show sub64 0 0 = 0
    decide

/-- Nothing of the other tags has changed: their entries with the counters in
them, and their order in every bucket. -/
structure OthersKept (index : Nat) (before after : FrcoreAcl) : Prop where
  entries : ∀ slot, slot ≠ index - 1 →
    after.filterArr slot = before.filterArr slot
  order : ∀ slot, (after.aclHashTable slot).head.filter (fun k => k ≠ index) =
    (before.aclHashTable slot).head.filter fun k => k ≠ index

theorem OthersKept.refl (index : Nat) (acl : FrcoreAcl) :
    OthersKept index acl acl :=
  ⟨fun _ _ => rfl, fun _ => rfl⟩

theorem OthersKept.trans {index : Nat} {first second third : FrcoreAcl}
    (h : OthersKept index first second) (h' : OthersKept index second third) :
    OthersKept index first third :=
  ⟨fun slot hslot => (h'.entries slot hslot).trans (h.entries slot hslot),
    fun slot => (h'.order slot).trans (h.order slot)⟩

/-- The lists of all buckets after one of them has changed. -/
theorem head_update (table : Nat → AclHashTable) (slot : Nat)
    (bucket : AclHashTable) :
    (fun other => (Function.update table slot bucket other).head) =
      Function.update (fun other => (table other).head) slot bucket.head := by
  funext other
  by_cases hother : other = slot
  · subst hother
    simp
  · simp [hother]

/-- The cells that exist are those of `filed`, each in the bucket of its
rule. -/
structure FrcoreAcl.Filed (crc : Nat → Nat → Fin frcoreMaxFilters)
    (acl : FrcoreAcl) (filed : Nat → Option Nat) : Prop where
  located : Buckets.Located filed fun slot => (acl.aclHashTable slot).head
  within : ∀ index slot, filed index = some slot →
    acl.place index = some slot
  valid : ∀ index ∈ aclIndexes, (acl.entry index).enable ≠ 0 →
    (acl.entry index).Valid crc
  depth : ∀ slot, (acl.aclHashTable slot).bucketDepth =
    (acl.aclHashTable slot).head.length

/-- In a sound table every rule in use has its cell. -/
theorem FrcoreAcl.Sound.filed {crc : Nat → Nat → Fin frcoreMaxFilters}
    {acl : FrcoreAcl} (hsound : acl.Sound crc) :
    acl.Filed crc acl.place where
  located := hsound.located
  within := fun _ _ h => h
  valid := hsound.valid
  depth := fun slot => (hsound.buckets slot).depth

/-- A bucket without the cell of a tag. -/
def AclHashTable.remove (bucket : AclHashTable) (index : Nat) : AclHashTable :=
  { bucket with
    head := bucket.head.erase index
    bucketDepth := sub64 bucket.bucketDepth 1
    delCell := add64 bucket.delCell 1 }

/-- A bucket with a cell for a tag at its end. -/
def AclHashTable.add (bucket : AclHashTable) (index : Nat) : AclHashTable :=
  { bucket with
    head := bucket.head ++ [index]
    bucketDepth := add64 bucket.bucketDepth 1
    totalCell := add64 bucket.totalCell 1 }

/-- The table without the rule and the cell of a tag. -/
def FrcoreAcl.removed (acl : FrcoreAcl) (index slot : Nat) : FrcoreAcl :=
  aclDeleteOneFilter { acl with
    aclHashTable := Function.update acl.aclHashTable slot
      ((acl.aclHashTable slot).remove index) } index

/-- The table with a cell for a tag. -/
def FrcoreAcl.added (acl : FrcoreAcl) (index slot : Nat) : FrcoreAcl :=
  { acl with
    aclHashTable := Function.update acl.aclHashTable slot
      ((acl.aclHashTable slot).add index) }

theorem removed_kept (acl : FrcoreAcl) (index slot : Nat) :
    OthersKept index acl (acl.removed index slot) := by
  constructor
  · intro other hother
    exact Function.update_of_ne hother _ _
  · intro other
    have hheads := congrFun (head_update acl.aclHashTable slot
      ((acl.aclHashTable slot).remove index)) other
    exact (congrArg (List.filter fun k => k ≠ index) hheads).trans
      (Buckets.filter_update_erase _ slot index other)

theorem added_kept (acl : FrcoreAcl) (index slot : Nat) :
    OthersKept index acl (acl.added index slot) := by
  constructor
  · exact fun _ _ => rfl
  · intro other
    have hheads := congrFun (head_update acl.aclHashTable slot
      ((acl.aclHashTable slot).add index)) other
    exact (congrArg (List.filter fun k => k ≠ index) hheads).trans
      (Buckets.filter_update_append _ slot index other)

theorem aclAddOneFilter_kept (acl : FrcoreAcl) (index : Nat)
    (args : FilterArgs) (hash : Nat) :
    OthersKept index acl (aclAddOneFilter acl index args hash) := by
  constructor
  · intro other hother
    exact Function.update_of_ne hother _ _
  · exact fun _ => rfl

section Calls

variable {crc : Nat → Nat → Fin frcoreMaxFilters} {acl : FrcoreAcl}
  {filed : Nat → Option Nat} {index : Nat}

theorem FrcoreAcl.Filed.place_eq (hfiled : acl.Filed crc filed)
    (hindex : index ∈ aclIndexes) (henable : (acl.entry index).enable ≠ 0) :
    ∃ slot, acl.place index = some slot ∧
      aclGetHashTable (acl.entry index).aclType (acl.entry index).hash =
        some slot := by
  obtain ⟨hlo, hhi, hcrc⟩ := hfiled.valid index hindex henable
  have hhash : (acl.entry index).hash < frcoreMaxFilters := by
    rw [hcrc]
    exact (crc _ _).isLt
  refine ⟨_, ?_, aclGetHashTable_eq hlo hhi hhash⟩
  rw [FrcoreAcl.place, if_pos ⟨hindex, henable⟩]
  exact aclGetHashTable_eq hlo hhi hhash

/-- The rules in use are at most as many as the indexes. -/
theorem FrcoreAcl.Sound.numFilters_lt (hsound : acl.Sound crc) :
    acl.numFilters + 1 < 2 ^ 32 := by
  have hle := Finset.card_filter_le aclIndexes fun k => (acl.place k).isSome
  rw [← hsound.counted, aclIndexes, Nat.card_Icc] at hle
  simp only [aclMax] at hle
  omega

/-- So are the cells of a bucket. -/
theorem FrcoreAcl.Filed.length_lt (hfiled : acl.Filed crc filed)
    (slot : Nat) : (acl.aclHashTable slot).head.length + 1 < 2 ^ 64 := by
  have hsub : (acl.aclHashTable slot).head.toFinset ⊆ aclIndexes := by
    intro k hk
    rw [List.mem_toFinset, hfiled.located.mem_iff slot k] at hk
    have hplace := hfiled.within k slot hk
    rw [FrcoreAcl.place] at hplace
    split at hplace
    · exact And.left ‹_›
    · cases hplace
  have hle := Finset.card_le_card hsub
  rw [List.toFinset_card_of_nodup (hfiled.located.nodup slot), aclIndexes,
    Nat.card_Icc] at hle
  simp only [aclMax] at hle
  omega

theorem AclHashTable.Counted.remove {bucket : AclHashTable}
    (h : bucket.Counted) (hmem : index ∈ bucket.head) :
    (bucket.remove index).Counted := by
  have hpos := List.length_pos_of_mem hmem
  have hdepth := h.depth
  have hcells := h.cells
  have hlen := List.length_erase_of_mem hmem
  constructor
  · simp only [AclHashTable.remove, hlen, sub64] at *
    omega
  · simp only [AclHashTable.remove, sub64, add64] at *
    omega

theorem AclHashTable.Counted.add {bucket : AclHashTable} (h : bucket.Counted)
    (hroom : bucket.head.length + 1 < 2 ^ 64) :
    (bucket.add index).Counted := by
  have hdepth := h.depth
  have hcells := h.cells
  constructor
  · simp only [AclHashTable.add, List.length_append, List.length_singleton,
      add64] at *
    omega
  · simp only [AclHashTable.add, sub64, add64] at *
    omega

theorem removed_place (hindex : index ∈ aclIndexes) (slot : Nat) :
    (acl.removed index slot).place = Function.update acl.place index none :=
  place_update acl hindex .zero _ _

theorem removed_enable (slot : Nat) :
    ((acl.removed index slot).entry index).enable = 0 := by
  rw [FrcoreAcl.removed, aclDeleteOneFilter, entry_update_self]
  rfl

/-- Taking out a rule with its cell keeps the other cells. -/
theorem removed_filed (hfiled : acl.Filed crc filed)
    (hindex : index ∈ aclIndexes) {slot : Nat}
    (hslot : filed index = some slot) :
    (acl.removed index slot).Filed crc (Function.update filed index none) := by
  have hmem : index ∈ (acl.aclHashTable slot).head :=
    (hfiled.located.mem_iff slot index).mpr hslot
  refine ⟨?_, ?_, ?_, ?_⟩
  · rw [FrcoreAcl.removed, aclDeleteOneFilter, head_update]
    exact hfiled.located.remove hslot
  · intro other otherSlot hother
    rw [removed_place hindex]
    by_cases heq : other = index
    · rw [heq, Function.update_self] at hother
      cases hother
    · rw [Function.update_of_ne heq] at hother ⊢
      exact hfiled.within other otherSlot hother
  · exact valid_update acl hindex .zero _ _ hfiled.valid
      fun hzero => absurd rfl hzero
  · intro other
    simp only [FrcoreAcl.removed, aclDeleteOneFilter]
    by_cases hother : other = slot
    · subst hother
      have hpos := List.length_pos_of_mem hmem
      have hlong := hfiled.length_lt other
      simp only [Function.update_self, AclHashTable.remove,
        List.length_erase_of_mem hmem, hfiled.depth other, sub64]
      omega
    · simp only [Function.update_of_ne hother]
      exact hfiled.depth other

/-- A rule with a cell is removed with it. -/
theorem aclRemoveFilter_eq (hfiled : acl.Filed crc filed) {slot : Nat}
    (hslot : filed index = some slot) :
    aclRemoveFilter acl index = (.success, acl.removed index slot) := by
  have hplace := hfiled.within index slot hslot
  have hmem : index ∈ (acl.aclHashTable slot).head :=
    (hfiled.located.mem_iff slot index).mpr hslot
  have hdepth : (acl.aclHashTable slot).bucketDepth ≠ 0 := by
    rw [hfiled.depth slot]
    exact Nat.pos_iff_ne_zero.mp (List.length_pos_of_mem hmem)
  have htable : aclGetHashTable (acl.entry index).aclType
      (acl.entry index).hash = some slot := by
    rw [FrcoreAcl.place] at hplace
    split at hplace
    · exact hplace
    · cases hplace
  rw [aclRemoveFilter, htable]
  simp only [aclDeleteOneFilterFromHashTable]
  rw [if_neg (by simp [hdepth, List.ne_nil_of_mem hmem]), if_pos hmem]
  rfl

/-- A rule in use is removed with its cell. -/
theorem aclRemoveFilter_sound (hsound : acl.Sound crc)
    (hindex : index ∈ aclIndexes) (henable : (acl.entry index).enable ≠ 0) :
    (aclRemoveFilter acl index).1 = .success ∧
      (aclRemoveFilter acl index).2.Sound crc ∧
      ((aclRemoveFilter acl index).2.entry index).enable = 0 ∧
      OthersKept index acl (aclRemoveFilter acl index).2 := by
  obtain ⟨slot, hplace, htable⟩ := hsound.filed.place_eq hindex henable
  have hmem : index ∈ (acl.aclHashTable slot).head :=
    (hsound.located.mem_iff slot index).mpr hplace
  have hpositive : 0 < acl.numFilters := by
    rw [hsound.counted]
    exact Finset.card_pos.mpr ⟨index, by simp [hindex, hplace]⟩
  have hmax := Nat.lt_of_succ_lt hsound.numFilters_lt
  have hfiled := removed_filed hsound.filed hindex hplace
  rw [aclRemoveFilter_eq hsound.filed hplace]
  refine ⟨rfl, ⟨?_, hfiled.valid, ?_, ?_⟩, removed_enable slot,
    removed_kept acl index slot⟩
  · rw [removed_place hindex]
    exact hfiled.located
  · have hnum : (acl.removed index slot).numFilters =
        dec32 acl.numFilters := rfl
    rw [removed_place hindex, hnum, dec32_eq hpositive hmax, hsound.counted]
    exact (Buckets.card_placed_remove hindex hplace).symm
  · intro other
    simp only [FrcoreAcl.removed, aclDeleteOneFilter]
    by_cases hother : other = slot
    · subst hother
      simp only [Function.update_self]
      exact (hsound.buckets other).remove hmem
    · simp only [Function.update_of_ne hother]
      exact hsound.buckets other

section Add

variable (hindex : index ∈ aclIndexes)
  (henable : (acl.entry index).enable = 0) {args : FilterArgs}
  {hash slot : Nat} (htable : aclGetHashTable args.aclType hash = some slot)

theorem aclAddOneFilter_entry :
    (aclAddOneFilter acl index args hash).entry index =
      (acl.entry index).write index args hash :=
  entry_update_self acl _ _ _

include htable

/-- A rule that was written finds the bucket for its cell. -/
theorem aclAddOneFilterToHashTable_eq (allocOk : Bool) :
    aclAddOneFilterToHashTable allocOk (aclAddOneFilter acl index args hash)
        index =
      if !allocOk then (.fail, aclAddOneFilter acl index args hash)
      else (.success,
        (aclAddOneFilter acl index args hash).added index slot) := by
  have htable' : aclGetHashTable
      ((aclAddOneFilter acl index args hash).entry index).aclType
      ((aclAddOneFilter acl index args hash).entry index).hash =
        some slot := by
    rw [aclAddOneFilter_entry]
    exact htable
  simp only [aclAddOneFilterToHashTable, htable']
  rfl

include hindex

theorem aclAddOneFilter_place :
    (aclAddOneFilter acl index args hash).place =
      Function.update acl.place index (some slot) := by
  have hplaces := place_update acl hindex
    ((acl.entry index).write index args hash) (inc32 acl.numFilters)
    acl.aclHashTable
  have hplace : (if ((acl.entry index).write index args hash).enable ≠ 0 then
      aclGetHashTable ((acl.entry index).write index args hash).aclType
        ((acl.entry index).write index args hash).hash else none) =
      some slot := by
    rw [if_pos (by simp [TwoTupleFilter.write])]
    exact htable
  rw [hplace] at hplaces
  exact hplaces

include henable

/-- A rule written to an entry that is not in use has no cell yet. -/
theorem aclAddOneFilter_filed (hfiled : acl.Filed crc filed)
    (hlo : frcAclSip ≤ args.aclType) (hhi : args.aclType ≤ frcAclDp)
    (hhash : hash = crc args.oneTuple args.proto) :
    (aclAddOneFilter acl index args hash).Filed crc filed ∧
      filed index = none := by
  have hnone : filed index = none := by
    rw [Option.eq_none_iff_forall_ne_some]
    intro other hother
    have hplace := hfiled.within index other hother
    rw [place_eq_none henable] at hplace
    cases hplace
  refine ⟨⟨hfiled.located, ?_, ?_, hfiled.depth⟩, hnone⟩
  · intro other otherSlot hother
    rw [aclAddOneFilter_place hindex htable]
    by_cases heq : other = index
    · rw [heq, hnone] at hother
      cases hother
    · rw [Function.update_of_ne heq]
      exact hfiled.within other otherSlot hother
  · exact valid_update acl hindex _ _ _ hfiled.valid fun _ =>
      ⟨hlo, hhi, hhash⟩

/-- With the cell added it is filed. -/
theorem added_filed (hfiled : acl.Filed crc filed)
    (hlo : frcAclSip ≤ args.aclType) (hhi : args.aclType ≤ frcAclDp)
    (hhash : hash = crc args.oneTuple args.proto) :
    ((aclAddOneFilter acl index args hash).added index slot).Filed crc
      (Function.update filed index (some slot)) := by
  obtain ⟨hwritten, hnone⟩ := aclAddOneFilter_filed hindex henable htable
    hfiled hlo hhi hhash
  refine ⟨?_, ?_, hwritten.valid, ?_⟩
  · rw [FrcoreAcl.added, head_update]
    exact hwritten.located.add hnone slot
  · intro other otherSlot hother
    have hplace : ((aclAddOneFilter acl index args hash).added index
        slot).place other = Function.update acl.place index (some slot)
          other :=
      congrFun (aclAddOneFilter_place hindex htable) other
    rw [hplace]
    by_cases heq : other = index
    · rw [heq, Function.update_self] at hother ⊢
      exact hother
    · rw [Function.update_of_ne heq] at hother ⊢
      exact hfiled.within other otherSlot hother
  · intro other
    simp only [FrcoreAcl.added]
    by_cases hother : other = slot
    · subst hother
      have hlong := hwritten.length_lt other
      simp only [Function.update_self, AclHashTable.add, List.length_append,
        List.length_singleton, hwritten.depth other, add64]
      omega
    · simp only [Function.update_of_ne hother]
      exact hwritten.depth other

end Add

/-- A rule is written to an entry that is not in use, and a cell for it is
added. -/
theorem aclAddFilter_sound (hsound : acl.Sound crc)
    (hindex : index ∈ aclIndexes) (henable : (acl.entry index).enable = 0)
    {args : FilterArgs} (hlo : frcAclSip ≤ args.aclType)
    (hhi : args.aclType ≤ frcAclDp) :
    (aclAddOneFilterToHashTable true (aclAddOneFilter acl index args
        (crc args.oneTuple args.proto)) index).2.Sound crc ∧
      OthersKept index acl (aclAddOneFilterToHashTable true
        (aclAddOneFilter acl index args (crc args.oneTuple args.proto))
          index).2 := by
  obtain ⟨slot, htable⟩ : ∃ slot, aclGetHashTable args.aclType
      (crc args.oneTuple args.proto) = some slot :=
    ⟨_, aclGetHashTable_eq hlo hhi (crc _ _).isLt⟩
  have hnone := place_eq_none henable
  rw [aclAddOneFilterToHashTable_eq htable]
  generalize hhash : (crc args.oneTuple args.proto).val = hash at htable ⊢
  have hplaces : ((aclAddOneFilter acl index args hash).added index
      slot).place = Function.update acl.place index (some slot) :=
    aclAddOneFilter_place hindex htable
  have hfiled := added_filed hindex henable htable hsound.filed hlo hhi
    hhash.symm
  refine ⟨⟨?_, hfiled.valid, ?_, ?_⟩,
    (aclAddOneFilter_kept acl index args hash).trans (added_kept _ _ _)⟩
  · simp only [Bool.not_true, Bool.false_eq_true, if_false, hplaces]
    exact hfiled.located
  · have hnum : ((aclAddOneFilter acl index args hash).added index
        slot).numFilters = inc32 acl.numFilters := rfl
    simp only [Bool.not_true, Bool.false_eq_true, if_false, hplaces, hnum]
    rw [inc32, Nat.mod_eq_of_lt hsound.numFilters_lt, hsound.counted]
    exact (Buckets.card_placed_add hindex hnone slot).symm
  · intro other
    simp only [Bool.not_true, Bool.false_eq_true, if_false, FrcoreAcl.added]
    by_cases hother : other = slot
    · subst hother
      simp only [Function.update_self]
      exact (hsound.buckets other).add (hsound.filed.length_lt other)
    · simp only [Function.update_of_ne hother]
      exact hsound.buckets other

end Calls

/-- A call that changes the table. -/
inductive FilterCall where
  | set (index : Nat) (args : FilterArgs)
  | del (index : Nat)

def FilterCall.index : FilterCall → Nat
  | .set index _ => index
  | .del index => index

/-- The call, with every allocation of a cell succeeding. -/
def FilterCall.run (crc : Nat → Nat → Fin frcoreMaxFilters) (acl : FrcoreAcl) :
    FilterCall → Fre × FrcoreAcl
  | .set index args => aclSetFilter crc true acl index args
  | .del index => aclDelFilter acl index

/-- The tag or the kind of the rule is out of range. -/
def FilterCall.OutOfRange : FilterCall → Prop
  | .set index args => index ∉ aclIndexes ∨
      args.aclType < frcAclSip ∨ frcAclDp < args.aclType
  | .del index => index ∉ aclIndexes

/-- The table after a history of calls. -/
def runFilter (crc : Nat → Nat → Fin frcoreMaxFilters)
    (calls : List FilterCall) : FrcoreAcl :=
  calls.foldl (fun acl call => (call.run crc acl).2) frcoreFilterInit

theorem mem_aclIndexes {index : Nat} :
    index ∈ aclIndexes ↔ ¬ (index < aclIndexStart ∨ aclMax < index) := by
  rw [aclIndexes, Finset.mem_Icc]
  omega

/-- The call, with the allocation of a cell succeeding or not. -/
def FilterCall.runAlloc (crc : Nat → Nat → Fin frcoreMaxFilters)
    (allocOk : Bool) (acl : FrcoreAcl) : FilterCall → Fre × FrcoreAcl
  | .set index args => aclSetFilter crc allocOk acl index args
  | .del index => aclDelFilter acl index

theorem FilterCall.runAlloc_outOfRange
    {crc : Nat → Nat → Fin frcoreMaxFilters} {call : FilterCall}
    (h : call.OutOfRange) (allocOk : Bool) (acl : FrcoreAcl) :
    call.runAlloc crc allocOk acl = (.param, acl) := by
  cases call with
  | set index args =>
      rw [FilterCall.runAlloc, aclSetFilter]
      by_cases hindex : index ∈ aclIndexes
      · rw [if_neg (mem_aclIndexes.mp hindex),
          if_pos (h.resolve_left (not_not.mpr hindex))]
      · rw [if_pos (by rwa [mem_aclIndexes, not_not] at hindex)]
  | del index =>
      have hindex : index ∉ aclIndexes := h
      rw [FilterCall.runAlloc, aclDelFilter,
        if_pos (by rwa [mem_aclIndexes, not_not] at hindex)]

theorem FilterCall.run_eq (crc : Nat → Nat → Fin frcoreMaxFilters)
    (acl : FrcoreAcl) (call : FilterCall) :
    call.run crc acl = call.runAlloc crc true acl := by
  cases call with
  | set index args => rfl
  | del index => rfl

theorem FilterCall.run_outOfRange {crc : Nat → Nat → Fin frcoreMaxFilters}
    {call : FilterCall} (h : call.OutOfRange) (acl : FrcoreAcl) :
    call.run crc acl = (.param, acl) := by
  rw [FilterCall.run_eq, FilterCall.runAlloc_outOfRange h]

/-- Setting a rule with a tag and a kind in range: the old rule of the tag, if
there is one, is removed, and the new one is added. -/
theorem FilterCall.run_set {crc : Nat → Nat → Fin frcoreMaxFilters}
    {acl : FrcoreAcl} {index : Nat} {args : FilterArgs}
    (hsound : acl.Sound crc)
    (hrange : ¬ (FilterCall.set index args).OutOfRange) :
    index ∈ aclIndexes ∧
      (frcAclSip ≤ args.aclType ∧ args.aclType ≤ frcAclDp) ∧
      ∃ free : FrcoreAcl, free.Sound crc ∧ (free.entry index).enable = 0 ∧
        OthersKept index acl free ∧
        (FilterCall.set index args).run crc acl =
          aclAddOneFilterToHashTable true (aclAddOneFilter free index args
            (crc args.oneTuple args.proto)) index := by
  obtain ⟨hindex, hkind⟩ := not_or.mp hrange
  have hindex := not_not.mp hindex
  have hargs : frcAclSip ≤ args.aclType ∧ args.aclType ≤ frcAclDp := by
    rwa [not_or, Nat.not_lt, Nat.not_lt] at hkind
  have htable := aclGetHashTable_eq hargs.1 hargs.2
    (crc args.oneTuple args.proto).isLt
  refine ⟨hindex, hargs, ?_⟩
  rw [FilterCall.run, aclSetFilter, if_neg (mem_aclIndexes.mp hindex),
    if_neg hkind]
  by_cases henable : (acl.entry index).enable = 0
  · refine ⟨acl, hsound, henable, .refl index acl, ?_⟩
    simp only [henable, ne_eq, not_true_eq_false, if_false, htable]
  · obtain ⟨hcode, hremoved, hempty, hkept⟩ :=
      aclRemoveFilter_sound hsound hindex henable
    refine ⟨_, hremoved, hempty, hkept, ?_⟩
    simp only [henable, ne_eq, not_false_eq_true, if_true, hcode,
      not_true_eq_false, if_false, htable]

/-- Every call keeps the invariant and the other tags. -/
theorem FilterCall.run_sound {crc : Nat → Nat → Fin frcoreMaxFilters}
    {acl : FrcoreAcl} (hsound : acl.Sound crc) (call : FilterCall) :
    (call.run crc acl).2.Sound crc ∧
      OthersKept call.index acl (call.run crc acl).2 := by
  by_cases hrange : call.OutOfRange
  · rw [FilterCall.run_outOfRange hrange]
    exact ⟨hsound, .refl call.index acl⟩
  cases call with
  | set index args =>
      obtain ⟨hindex, ⟨hlo, hhi⟩, free, hfree, hempty, hkept, hrun⟩ :=
        FilterCall.run_set hsound hrange
      obtain ⟨hadded, hkept'⟩ := aclAddFilter_sound hfree hindex hempty hlo hhi
      rw [hrun]
      exact ⟨hadded, hkept.trans hkept'⟩
  | del index =>
      have hindex : index ∈ aclIndexes := not_not.mp hrange
      rw [FilterCall.run, aclDelFilter, if_neg (mem_aclIndexes.mp hindex)]
      by_cases henable : (acl.entry index).enable = 0
      · rw [if_pos henable]
        exact ⟨hsound, .refl index acl⟩
      · rw [if_neg henable]
        obtain ⟨-, hremoved, -, hkept⟩ :=
          aclRemoveFilter_sound hsound hindex henable
        exact ⟨hremoved, hkept⟩

theorem runFilter_sound (crc : Nat → Nat → Fin frcoreMaxFilters)
    (calls : List FilterCall) : (runFilter crc calls).Sound crc := by
  induction calls using List.reverseRecOn with
  | nil => exact frcoreFilterInit_sound crc
  | append_singleton calls call ih =>
      rw [runFilter, List.foldl_concat]
      exact (FilterCall.run_sound ih call).1

/-- Entries, cells and counters agree. -/
structure FrcoreAcl.Consistent (crc : Nat → Nat → Fin frcoreMaxFilters)
    (acl : FrcoreAcl) : Prop where
  enabled : ∀ index ∈ aclIndexes, (acl.entry index).enable ≠ 0 →
    ∃ slot, aclGetHashTable (acl.entry index).aclType
        (crc (acl.entry index).oneTuple (acl.entry index).proto) =
          some slot ∧
      ∀ other, (acl.aclHashTable other).head.count index =
        if other = slot then 1 else 0
  disabled : ∀ index ∈ aclIndexes, (acl.entry index).enable = 0 →
    ∀ slot, (acl.aclHashTable slot).head.count index = 0
  numFilters : acl.numFilters =
    (aclIndexes.filter fun index => (acl.entry index).enable ≠ 0).card
  liveCells : acl.numFilters =
    ∑ slot ∈ Finset.range frcoreAclHashTableSize,
      (acl.aclHashTable slot).head.length
  depth : ∀ slot, (acl.aclHashTable slot).bucketDepth =
    (acl.aclHashTable slot).head.length
  cells : ∀ slot, sub64 (acl.aclHashTable slot).totalCell
    (acl.aclHashTable slot).delCell = (acl.aclHashTable slot).bucketDepth

theorem FrcoreAcl.Sound.consistent {crc : Nat → Nat → Fin frcoreMaxFilters}
    {acl : FrcoreAcl} (h : acl.Sound crc) : acl.Consistent crc := by
  refine ⟨?_, ?_, ?_, ?_, fun slot => (h.buckets slot).depth,
    fun slot => (h.buckets slot).cells⟩
  · intro index hindex henable
    obtain ⟨slot, hplace, htable⟩ := h.filed.place_eq hindex henable
    rw [(h.valid index hindex henable).hash] at htable
    refine ⟨slot, htable, fun other => ?_⟩
    rw [h.located.count, hplace]
    simp [eq_comm]
  · intro index hindex henable slot
    rw [h.located.count, place_eq_none henable]
    simp
  · rw [h.counted]
    congr 1
    refine Finset.filter_congr fun index hindex => ?_
    by_cases henable : (acl.entry index).enable = 0
    · simp [place_eq_none henable, henable]
    · obtain ⟨slot, hplace, -⟩ := h.filed.place_eq hindex henable
      simp [hplace, henable]
  · rw [h.counted]
    refine (h.located.sum_length fun index slot hplace => ?_).symm
    rw [FrcoreAcl.place] at hplace
    split at hplace
    · exact ⟨And.left ‹_›, Finset.mem_range.mpr (aclGetHashTable_lt hplace)⟩
    · cases hplace

/-- After every history the table is consistent, and a further call leaves the
other tags alone, and everything when it is out of range. -/
theorem runFilter_consistent (crc : Nat → Nat → Fin frcoreMaxFilters)
    (calls : List FilterCall) :
    (runFilter crc calls).Consistent crc ∧
      ∀ call : FilterCall,
        OthersKept call.index (runFilter crc calls)
          (call.run crc (runFilter crc calls)).2 ∧
        (call.OutOfRange → call.run crc (runFilter crc calls) =
          (.param, runFilter crc calls)) := by
  have hsound := runFilter_sound crc calls
  refine ⟨hsound.consistent, fun call => ⟨?_, fun hrange => ?_⟩⟩
  · exact (FilterCall.run_sound hsound call).2
  · exact FilterCall.run_outOfRange hrange _

end Barley
