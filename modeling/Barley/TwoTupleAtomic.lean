/-
The two-tuple table when cells run out.  A rule whose cell could not be
allocated stays in use without one; no later call on its tag succeeds, and it
is the only way in which a call can go wrong.
-/
import Barley.TwoTupleLookup

namespace Barley

/-- The table after a history of calls, each with its allocation. -/
def runFilterAlloc (crc : Nat → Nat → Fin frcoreMaxFilters)
    (calls : List (FilterCall × Bool)) : FrcoreAcl :=
  calls.foldl (fun acl call => (call.1.runAlloc crc call.2 acl).2)
    frcoreFilterInit

/-- The table after further calls that all find cells available. -/
def FrcoreAcl.after (crc : Nat → Nat → Fin frcoreMaxFilters)
    (acl : FrcoreAcl) (later : List FilterCall) : FrcoreAcl :=
  later.foldl (fun acl call => (call.runAlloc crc true acl).2) acl

/-- The arguments a rule may be set with. -/
def FilterArgs.InRange (args : FilterArgs) : Prop :=
  frcAclSip ≤ args.aclType ∧ args.aclType ≤ frcAclDp

/-- Once cells are available the tag can be set, and deleted when its rule is
in use, whatever calls come in between. -/
def FrcoreAcl.Recovers (crc : Nat → Nat → Fin frcoreMaxFilters)
    (acl : FrcoreAcl) (index : Nat) : Prop :=
  ∀ later : List FilterCall,
    (∀ args : FilterArgs, args.InRange →
      (aclSetFilter crc true (acl.after crc later) index args).1 =
        .success) ∧
    (((acl.after crc later).entry index).enable ≠ 0 →
      (aclDelFilter (acl.after crc later) index).1 = .success)

/-- A call that returns an error leaves the table and every lookup as they
were, and its tag usable. -/
structure FilterCall.Atomic (crc : Nat → Nat → Fin frcoreMaxFilters)
    (acl : FrcoreAcl) (call : FilterCall) (code : Fre) (next : FrcoreAcl) :
    Prop where
  entries : code ≠ .success → next.filterArr = acl.filterArr
  buckets : code ≠ .success → next.aclHashTable = acl.aclHashTable
  numFilters : code ≠ .success → next.numFilters = acl.numFilters
  lookups : code ≠ .success → ∀ tuple : MppTuple,
    filterLookupByTuple crc next tuple = filterLookupByTuple crc acl tuple
  usable : code ≠ .success → call.index ∈ aclIndexes →
    next.Recovers crc call.index

/-- The rule is in use and no bucket has a cell for it. -/
def FrcoreAcl.Stuck (acl : FrcoreAcl) (index : Nat) : Prop :=
  (acl.entry index).enable ≠ 0 ∧
    ∀ slot, index ∉ (acl.aclHashTable slot).head

theorem frcoreFilterInit_filed (crc : Nat → Nat → Fin frcoreMaxFilters) :
    frcoreFilterInit.Filed crc frcoreFilterInit.place :=
  (frcoreFilterInit_sound crc).filed

section Calls

variable {crc : Nat → Nat → Fin frcoreMaxFilters} {acl : FrcoreAcl}
  {filed : Nat → Option Nat} (hfiled : acl.Filed crc filed) {index : Nat}

include hfiled

theorem FrcoreAcl.Filed.stuck_iff :
    acl.Stuck index ↔ (acl.entry index).enable ≠ 0 ∧ filed index = none := by
  refine and_congr_right fun _ => ?_
  constructor
  · intro hnone
    rw [Option.eq_none_iff_forall_ne_some]
    intro slot hslot
    exact hnone slot ((hfiled.located.mem_iff slot index).mpr hslot)
  · intro hnone slot hmem
    rw [hfiled.located.mem_iff, hnone] at hmem
    cases hmem

/-- A rule in use that is not stuck has its cell. -/
theorem FrcoreAcl.Filed.filed_of_not_stuck
    (henable : (acl.entry index).enable ≠ 0) (hnot : ¬ acl.Stuck index) :
    ∃ slot, filed index = some slot := by
  rw [hfiled.stuck_iff] at hnot
  exact Option.ne_none_iff_exists'.mp fun hnone => hnot ⟨henable, hnone⟩

variable (hindex : index ∈ aclIndexes)

include hindex

/-- A rule without a cell cannot be removed. -/
theorem aclRemoveFilter_stuck (hstuck : acl.Stuck index) :
    aclRemoveFilter acl index = (.fail, acl) := by
  obtain ⟨slot, _, htable⟩ := hfiled.place_eq hindex hstuck.1
  simp only [aclRemoveFilter, htable, aclDeleteOneFilterFromHashTable,
    hstuck.2 slot, if_false, ite_self]

theorem aclDelFilter_stuck (hstuck : acl.Stuck index) :
    aclDelFilter acl index = (.fail, acl) := by
  rw [aclDelFilter, if_neg (mem_aclIndexes.mp hindex), if_neg hstuck.1,
    aclRemoveFilter_stuck hfiled hindex hstuck]

theorem aclSetFilter_stuck (hstuck : acl.Stuck index) (allocOk : Bool)
    {args : FilterArgs} (hargs : args.InRange) :
    aclSetFilter crc allocOk acl index args = (.fail, acl) := by
  have hkind : ¬ (args.aclType < frcAclSip ∨ frcAclDp < args.aclType) := by
    rw [not_or, Nat.not_lt, Nat.not_lt]
    exact hargs
  rw [aclSetFilter, if_neg (mem_aclIndexes.mp hindex), if_neg hkind]
  simp [hstuck.1, aclRemoveFilter_stuck hfiled hindex hstuck]

/-- What deleting a rule that is not stuck does. -/
theorem aclDelFilter_of_not_stuck (hnot : ¬ acl.Stuck index) :
    ((acl.entry index).enable = 0 ∧
      aclDelFilter acl index = (.init, acl)) ∨
    ((acl.entry index).enable ≠ 0 ∧
      (aclDelFilter acl index).1 = .success ∧
      (aclDelFilter acl index).2.Filed crc
        (Function.update filed index none) ∧
      ((aclDelFilter acl index).2.entry index).enable = 0 ∧
      OthersKept index acl (aclDelFilter acl index).2) := by
  rw [aclDelFilter, if_neg (mem_aclIndexes.mp hindex)]
  by_cases henable : (acl.entry index).enable = 0
  · rw [if_pos henable]
    exact .inl ⟨henable, rfl⟩
  · obtain ⟨slot, hslot⟩ := hfiled.filed_of_not_stuck henable hnot
    rw [if_neg henable, aclRemoveFilter_eq hfiled hslot]
    exact .inr ⟨henable, rfl, removed_filed hfiled hindex hslot,
      removed_enable slot, removed_kept acl index slot⟩

/-- What setting a rule that is not stuck does: with a cell it is filed in
some bucket, without one it is left in use and nowhere. -/
theorem aclSetFilter_of_not_stuck (hnot : ¬ acl.Stuck index)
    {args : FilterArgs} (hargs : args.InRange) :
    (∃ slot, (aclSetFilter crc true acl index args).1 = .success ∧
      (aclSetFilter crc true acl index args).2.Filed crc
        (Function.update filed index (some slot)) ∧
      OthersKept index acl (aclSetFilter crc true acl index args).2) ∧
    ((aclSetFilter crc false acl index args).1 = .fail ∧
      (aclSetFilter crc false acl index args).2.Filed crc
        (Function.update filed index none) ∧
      ((aclSetFilter crc false acl index args).2.entry index).enable ≠ 0 ∧
      OthersKept index acl (aclSetFilter crc false acl index args).2) := by
  obtain ⟨hlo, hhi⟩ := hargs
  obtain ⟨slot, htable⟩ : ∃ slot, aclGetHashTable args.aclType
      (crc args.oneTuple args.proto) = some slot :=
    ⟨_, aclGetHashTable_eq hlo hhi (crc _ _).isLt⟩
  have hkind : ¬ (args.aclType < frcAclSip ∨ frcAclDp < args.aclType) := by
    rw [not_or, Nat.not_lt, Nat.not_lt]
    exact ⟨hlo, hhi⟩
  -- the table once the old rule is gone
  obtain ⟨free, hfree, hfreeFiled, hempty, hfreeKept⟩ :
      ∃ free, (if (acl.entry index).enable ≠ 0 then aclRemoveFilter acl index
          else (.success, acl)) = (.success, free) ∧
        free.Filed crc (Function.update filed index none) ∧
        (free.entry index).enable = 0 ∧ OthersKept index acl free := by
    by_cases henable : (acl.entry index).enable = 0
    · have hnone : filed index = none := by
        rw [Option.eq_none_iff_forall_ne_some]
        intro other hother
        have hplace := hfiled.within index other hother
        rw [place_eq_none henable] at hplace
        cases hplace
      refine ⟨acl, if_neg (not_not.mpr henable), ?_, henable, .refl _ _⟩
      rw [← hnone, Function.update_eq_self]
      exact hfiled
    · obtain ⟨old, hold⟩ := hfiled.filed_of_not_stuck henable hnot
      refine ⟨acl.removed index old, ?_, removed_filed hfiled hindex hold,
        removed_enable old, removed_kept acl index old⟩
      rw [if_pos henable, aclRemoveFilter_eq hfiled hold]
  have hset : ∀ allocOk, aclSetFilter crc allocOk acl index args =
      if !allocOk then (.fail, aclAddOneFilter free index args
        (crc args.oneTuple args.proto))
      else (.success, (aclAddOneFilter free index args
        (crc args.oneTuple args.proto)).added index slot) := by
    intro allocOk
    rw [aclSetFilter, if_neg (mem_aclIndexes.mp hindex), if_neg hkind]
    simp only [hfree, htable, ne_eq, not_true_eq_false, if_false]
    exact aclAddOneFilterToHashTable_eq htable allocOk
  rw [hset, hset]
  have hkept := hfreeKept.trans (aclAddOneFilter_kept free index args
    (crc args.oneTuple args.proto))
  constructor
  · refine ⟨slot, rfl, ?_, hkept.trans (added_kept _ _ _)⟩
    have hadded := added_filed hindex hempty htable hfreeFiled hlo hhi rfl
    rwa [Function.update_idem] at hadded
  · refine ⟨rfl, (aclAddOneFilter_filed hindex hempty htable hfreeFiled hlo
      hhi rfl).1, ?_, hkept⟩
    rw [if_pos (by rfl)]
    show ((aclAddOneFilter free index args _).entry index).enable ≠ 0
    rw [aclAddOneFilter_entry]
    exact Nat.one_ne_zero

omit hfiled hindex in
theorem FilterCall.index_mem {call : FilterCall} (h : ¬ call.OutOfRange) :
    call.index ∈ aclIndexes := by
  by_contra hindex
  cases call with
  | set index args => exact h (.inl hindex)
  | del index => exact h hindex

omit hindex in
/-- A call on a stuck tag fails and changes nothing. -/
theorem FilterCall.runAlloc_stuck {call : FilterCall}
    (hrange : ¬ call.OutOfRange) (hstuck : acl.Stuck call.index)
    (allocOk : Bool) : call.runAlloc crc allocOk acl = (.fail, acl) := by
  have hindex := FilterCall.index_mem hrange
  cases call with
  | set index args =>
      obtain ⟨_, hkind⟩ := not_or.mp hrange
      rw [not_or, Nat.not_lt, Nat.not_lt] at hkind
      exact aclSetFilter_stuck hfiled hindex hstuck allocOk hkind
  | del index => exact aclDelFilter_stuck hfiled hindex hstuck

/-- The call allocates a cell and gets none. -/
def FilterCall.lacksCell (allocOk : Bool) : FilterCall → Bool
  | .set _ _ => !allocOk
  | .del _ => false

omit hindex in
/-- What a call on a tag that is not stuck does: nothing, since there is no
rule; what it should; or it finds no cell and leaves the tag stuck. -/
theorem FilterCall.runAlloc_cases {call : FilterCall}
    (hrange : ¬ call.OutOfRange) (hnot : ¬ acl.Stuck call.index)
    (allocOk : Bool) :
    call.runAlloc crc allocOk acl = (.init, acl) ∧
        call.lacksCell allocOk = false ∨
      OthersKept call.index acl (call.runAlloc crc allocOk acl).2 ∧
      ∃ value, (call.runAlloc crc allocOk acl).2.Filed crc
          (Function.update filed call.index value) ∧
        if call.lacksCell allocOk then
          (call.runAlloc crc allocOk acl).1 = .fail ∧
            (call.runAlloc crc allocOk acl).2.Stuck call.index
        else
          (call.runAlloc crc allocOk acl).1 = .success ∧
            ¬ (call.runAlloc crc allocOk acl).2.Stuck call.index := by
  have hindex := FilterCall.index_mem hrange
  cases call with
  | set index args =>
      obtain ⟨_, hkind⟩ := not_or.mp hrange
      rw [not_or, Nat.not_lt, Nat.not_lt] at hkind
      simp only [FilterCall.index] at hindex hnot
      obtain ⟨⟨slot, hcode, hadded, hkept⟩, hcode', hwritten, hin, hkept'⟩ :=
        aclSetFilter_of_not_stuck hfiled hindex hnot hkind
      refine .inr ?_
      cases allocOk with
      | true =>
          refine ⟨hkept, some slot, hadded, hcode, fun hstuck => ?_⟩
          have hnone := (hadded.stuck_iff.mp hstuck).2
          rw [FilterCall.index, Function.update_self] at hnone
          cases hnone
      | false =>
          refine ⟨hkept', none, hwritten, hcode', ?_⟩
          exact hwritten.stuck_iff.mpr ⟨hin, Function.update_self _ _ _⟩
  | del index =>
      rcases aclDelFilter_of_not_stuck hfiled hindex hnot with
        ⟨_, heq⟩ | ⟨_, hcode, hremoved, hempty, hkept⟩
      · exact .inl ⟨heq, rfl⟩
      · exact .inr ⟨hkept, none, hremoved, hcode, fun h => h.1 hempty⟩

omit hindex in
theorem FilterCall.runAlloc_filed (call : FilterCall) (allocOk : Bool) :
    ∃ filed', (call.runAlloc crc allocOk acl).2.Filed crc filed' := by
  by_cases hrange : call.OutOfRange
  · rw [FilterCall.runAlloc_outOfRange hrange]
    exact ⟨filed, hfiled⟩
  · by_cases hstuck : acl.Stuck call.index
    · rw [FilterCall.runAlloc_stuck hfiled hrange hstuck]
      exact ⟨filed, hfiled⟩
    · rcases FilterCall.runAlloc_cases hfiled hrange hstuck allocOk with
        ⟨heq, _⟩ | ⟨_, _, hnext, _⟩
      · rw [heq]
        exact ⟨filed, hfiled⟩
      · exact ⟨_, hnext⟩

/-- With cells available no tag gets stuck. -/
theorem FilterCall.runAlloc_not_stuck (hnot : ¬ acl.Stuck index)
    (call : FilterCall) : ¬ (call.runAlloc crc true acl).2.Stuck index := by
  by_cases hrange : call.OutOfRange
  · rwa [FilterCall.runAlloc_outOfRange hrange]
  · by_cases hstuck : acl.Stuck call.index
    · rwa [FilterCall.runAlloc_stuck hfiled hrange hstuck]
    · rcases FilterCall.runAlloc_cases hfiled hrange hstuck true with
        ⟨heq, _⟩ | ⟨hkept, value, hnext, hcode⟩
      · rwa [heq]
      · by_cases heq : index = call.index
        · have hfound : call.lacksCell true = false := by
            cases call with
            | set index args => rfl
            | del index => rfl
          rw [hfound, if_neg Bool.false_ne_true] at hcode
          exact heq ▸ hcode.2
        · rw [hnext.stuck_iff, Function.update_of_ne heq,
            hkept.entry_eq (FilterCall.index_mem hrange) hindex heq,
            ← hfiled.stuck_iff]
          exact hnot

theorem FrcoreAcl.after_not_stuck (hnot : ¬ acl.Stuck index)
    (later : List FilterCall) :
    ∃ filed', (acl.after crc later).Filed crc filed' ∧
      ¬ (acl.after crc later).Stuck index := by
  induction later using List.reverseRecOn with
  | nil => exact ⟨filed, hfiled, hnot⟩
  | append_singleton later call ih =>
      obtain ⟨before, hbefore, hnot'⟩ := ih
      obtain ⟨next, hnext⟩ := call.runAlloc_filed hbefore true
      rw [FrcoreAcl.after, List.foldl_concat]
      exact ⟨next, hnext, call.runAlloc_not_stuck hbefore hindex hnot'⟩

/-- Exactly the tags that are not stuck recover. -/
theorem FrcoreAcl.Filed.recovers_iff :
    acl.Recovers crc index ↔ ¬ acl.Stuck index := by
  constructor
  · intro hrecovers hstuck
    have hset := (hrecovers []).1 ⟨0, 0, 0, 0, frcAclSip, 0⟩
      ⟨Nat.le_refl _, by decide⟩
    rw [FrcoreAcl.after, List.foldl_nil,
      aclSetFilter_stuck hfiled hindex hstuck true
        ⟨Nat.le_refl _, by decide⟩] at hset
    cases hset
  · intro hnot later
    obtain ⟨_, hlater, hfree⟩ :=
      FrcoreAcl.after_not_stuck hfiled hindex hnot later
    constructor
    · intro args hargs
      obtain ⟨⟨_, hcode, _⟩, _⟩ :=
        aclSetFilter_of_not_stuck hlater hindex hfree hargs
      exact hcode
    · intro henable
      rcases aclDelFilter_of_not_stuck hlater hindex hfree with
        ⟨hempty, _⟩ | ⟨_, hcode, _⟩
      · exact absurd hempty henable
      · exact hcode

omit hindex in
/-- A call is atomic exactly when it finds its tag not stuck and, to set it, a
cell. -/
theorem FilterCall.atomic_iff (call : FilterCall) (allocOk : Bool) :
    call.Atomic crc acl (call.runAlloc crc allocOk acl).1
        (call.runAlloc crc allocOk acl).2 ↔
      call.index ∉ aclIndexes ∨ ¬ acl.Stuck call.index ∧
        (call.OutOfRange ∨ call.lacksCell allocOk = false) := by
  have hsame : ∀ {code}, (call.index ∈ aclIndexes →
      acl.Recovers crc call.index) → call.Atomic crc acl code acl :=
    fun h => ⟨fun _ => rfl, fun _ => rfl, fun _ => rfl, fun _ _ => rfl,
      fun _ => h⟩
  by_cases hrange : call.OutOfRange
  · rw [FilterCall.runAlloc_outOfRange hrange]
    by_cases hindex : call.index ∈ aclIndexes
    · simp only [hindex, not_true_eq_false, false_or, hrange, true_or,
        and_true]
      rw [← hfiled.recovers_iff hindex]
      exact ⟨fun h => h.usable (by decide) hindex, fun h => hsame fun _ => h⟩
    · exact ⟨fun _ => .inl hindex,
        fun _ => hsame fun h => absurd h hindex⟩
  · have hindex := FilterCall.index_mem hrange
    simp only [hindex, not_true_eq_false, false_or, hrange]
    by_cases hstuck : acl.Stuck call.index
    · rw [FilterCall.runAlloc_stuck hfiled hrange hstuck]
      constructor
      · intro h
        have husable := h.usable (fun hcode => nomatch hcode) hindex
        exact absurd hstuck ((hfiled.recovers_iff hindex).mp husable)
      · exact fun h => absurd hstuck h.1
    · rcases FilterCall.runAlloc_cases hfiled hrange hstuck allocOk with
        ⟨heq, hfound⟩ | ⟨_, value, hnext, hcode⟩
      · rw [heq]
        exact ⟨fun _ => ⟨hstuck, hfound⟩, fun _ => hsame fun _ =>
          (hfiled.recovers_iff hindex).mpr hstuck⟩
      · cases hfound : call.lacksCell allocOk with
        | true =>
            rw [hfound, if_pos rfl] at hcode
            constructor
            · intro h
              have husable := h.usable (by rw [hcode.1]; decide) hindex
              exact absurd hcode.2 ((hnext.recovers_iff hindex).mp husable)
            · exact fun h => nomatch h.2
        | false =>
            rw [hfound, if_neg Bool.false_ne_true] at hcode
            constructor
            · exact fun _ => ⟨hstuck, rfl⟩
            · intro _
              have hok : ∀ {P : Prop}, (call.runAlloc crc allocOk acl).1 ≠
                  .success → P := fun h => absurd hcode.1 h
              exact ⟨hok, hok, hok, hok, hok⟩

end Calls

theorem runFilterAlloc_filed (crc : Nat → Nat → Fin frcoreMaxFilters)
    (calls : List (FilterCall × Bool)) :
    ∃ filed, (runFilterAlloc crc calls).Filed crc filed := by
  induction calls using List.reverseRecOn with
  | nil => exact ⟨_, frcoreFilterInit_filed crc⟩
  | append_singleton calls call ih =>
      obtain ⟨filed, hfiled⟩ := ih
      rw [runFilterAlloc, List.foldl_concat]
      exact call.1.runAlloc_filed hfiled call.2

/-- After any history of calls, with cells available or not, the next call is
atomic exactly when its tag is out of range, or the tag is not stuck and the
call either is out of range or gets the cell it needs. -/
theorem filterCall_atomic_iff (crc : Nat → Nat → Fin frcoreMaxFilters)
    (calls : List (FilterCall × Bool)) (call : FilterCall) (allocOk : Bool) :
    call.Atomic crc (runFilterAlloc crc calls)
        (call.runAlloc crc allocOk (runFilterAlloc crc calls)).1
        (call.runAlloc crc allocOk (runFilterAlloc crc calls)).2 ↔
      call.index ∉ aclIndexes ∨
        ¬ (runFilterAlloc crc calls).Stuck call.index ∧
          (call.OutOfRange ∨ call.lacksCell allocOk = false) := by
  obtain ⟨filed, hfiled⟩ := runFilterAlloc_filed crc calls
  exact call.atomic_iff hfiled allocOk

/-- The first rule, set when there is no cell. -/
theorem firstFilter_not_atomic :
    ¬ ∀ (crc : Nat → Nat → Fin frcoreMaxFilters)
      (calls : List (FilterCall × Bool)) (call : FilterCall) (allocOk : Bool),
      call.Atomic crc (runFilterAlloc crc calls)
        (call.runAlloc crc allocOk (runFilterAlloc crc calls)).1
        (call.runAlloc crc allocOk (runFilterAlloc crc calls)).2 := by
  intro hatomic
  have hset := hatomic (fun _ _ => ⟨0, by decide⟩) []
    (.set 1 ⟨0, 0, 0, 0, frcAclSip, 0⟩) false
  have hentries := congrFun (hset.entries (by decide)) 0
  have henable := congrArg TwoTupleFilter.enable hentries
  exact absurd henable (by decide)

end Barley
