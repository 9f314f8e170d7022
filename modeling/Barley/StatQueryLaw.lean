/-
When the commands over a range of indexes stay in their arrays and report the
entries of the range.
-/
import Barley.StatQueries
import Barley.TwoTupleAtomic

namespace Barley

open RangeQuery (Got)

section Ranges

variable {E : Type}

/-- The entries of the requested range, in the order of their indexes. -/
def FrcOpIn.entries (input : FrcOpIn) (present : Nat → Option E) : List E :=
  (List.range input.num.toNat).filterMap fun i =>
    present (input.index.toNat + i)

/-- The command stays in its arrays and reports the first entries of the range,
with their number. -/
def ReportsRange (result : Option (StatOut E)) (input : FrcOpIn)
    (present : Nat → Option E) : Prop :=
  ∃ out, result = some out ∧
    out.stat = (input.entries present).take maxRule ∧
    out.num = out.stat.length

theorem FrcOpIn.tagid_eq (input : FrcOpIn) (i : Nat) :
    input.tagid i = (input.index.toNat + i) % 2 ^ 16 := by
  rw [FrcOpIn.tagid, BitVec.toNat_setWidth, BitVec.toNat_add,
    BitVec.toNat_ofNat]
  omega

/-- A number from `2 ^ 31` on is a negative count. -/
theorem FrcOpIn.count_eq (input : FrcOpIn) :
    input.count = if input.num.toNat < 2 ^ 31 then input.num.toNat else 0 := by
  rw [FrcOpIn.count, BitVec.toInt_eq_toNat_cond]
  have hlt := input.num.isLt
  split <;> split <;> omega

/-- A request is answered as it should be exactly when every index is looked up
as what it is, the output has room for the entries, and the number is no
negative count. -/
theorem statGet_reports_iff {size : Nat} (hsize : size ≤ frcCmdRespondDataSz)
    {get : Nat → Got E} {present : Nat → Option E} {input : FrcOpIn}
    (hfound : ∀ i < input.count, ∀ e,
      present (input.index.toNat + i) = some e →
      get (input.tagid i) = .outside ∨ get (input.tagid i) = .entry e) :
    ReportsRange (statGet size get input) input present ↔
      (∀ i < input.count, RangeQuery.Exact (fun i => get (input.tagid i))
        (fun i => present (input.index.toNat + i)) i) ∧
      (input.entries present).length ≤ maxRule ∧
      (2 ^ 31 ≤ input.num.toNat → input.entries present = []) := by
  have hreports : ReportsRange (statGet size get input) input present ↔
      RangeQuery.collect (fun i => get (input.tagid i)) maxRule []
        (List.range input.count) =
          some ((input.entries present).take maxRule) := by
    rw [statGet]
    simp only [hsize, if_true]
    constructor
    · rintro ⟨out, hsome, hstat, _⟩
      obtain ⟨stat, hcollect, hout⟩ := Option.bind_eq_some_iff.mp hsome
      cases hout
      rw [hcollect, ← hstat]
    · intro hcollect
      rw [hcollect]
      exact ⟨_, rfl, rfl, rfl⟩
  rw [hreports]
  have hcount := input.count_eq
  by_cases hsmall : input.num.toNat < 2 ^ 31
  · rw [if_pos hsmall] at hcount
    have hiff := @RangeQuery.collect_eq_take_iff E
      (fun i => get (input.tagid i)) maxRule
      (fun i => present (input.index.toNat + i)) (List.range input.count)
      fun i hi => hfound i (List.mem_range.mp hi)
    simp only [List.mem_range] at hiff
    rw [FrcOpIn.entries, ← hcount, hiff]
    refine and_congr_right fun _ => (and_iff_left fun hlarge => ?_).symm
    omega
  · rw [if_neg hsmall] at hcount
    rw [hcount]
    have hnone : some [] = some ((input.entries present).take maxRule) ↔
        input.entries present = [] := by
      rw [Option.some.injEq, eq_comm, List.take_eq_nil_iff]
      exact or_iff_right (by decide)
    refine hnone.trans ?_
    constructor
    · intro hempty
      rw [hempty]
      exact ⟨fun i hi => absurd hi (Nat.not_lt_zero i), Nat.zero_le _,
        fun _ => rfl⟩
    · exact fun h => h.2.2 (Nat.not_lt.mp hsmall)

/-- The same for a table that is searched for the tags, when no more than the
first `2 ^ 16` indexes are there. -/
theorem statGet_reports_tags_iff {size : Nat} (hsize : size ≤ frcCmdRespondDataSz)
    (found : Nat → Option E) (inside : Nat → Prop) {get : Nat → Got E}
    {present : Nat → Option E} {input : FrcOpIn}
    (hinside : ∀ tagid, inside tagid → get tagid = .ofOption (found tagid))
    (houtside : ∀ tagid, ¬ inside tagid → get tagid = .outside)
    (hlow : ∀ index < 2 ^ 16, present index = found index)
    (hhigh : ∀ index, 2 ^ 16 ≤ index → present index = none) :
    ReportsRange (statGet size get input) input present ↔
      (∀ i < input.count, inside (input.tagid i) ∧
        (2 ^ 16 ≤ input.index.toNat + i → found (input.tagid i) = none)) ∧
      (input.entries present).length ≤ maxRule ∧
      (2 ^ 31 ≤ input.num.toNat → input.entries present = []) := by
  have hpresent : ∀ i, present (input.index.toNat + i) = found (input.tagid i) ∨
      2 ^ 16 ≤ input.index.toNat + i ∧
        present (input.index.toNat + i) = none := by
    intro i
    by_cases hlt : input.index.toNat + i < 2 ^ 16
    · rw [input.tagid_eq, Nat.mod_eq_of_lt hlt]
      exact .inl (hlow _ hlt)
    · exact .inr ⟨Nat.not_lt.mp hlt, hhigh _ (Nat.not_lt.mp hlt)⟩
  have hexact : ∀ i, RangeQuery.Exact (fun i => get (input.tagid i))
      (fun i => present (input.index.toNat + i)) i ↔
      inside (input.tagid i) ∧
        (2 ^ 16 ≤ input.index.toNat + i → found (input.tagid i) = none) := by
    intro i
    by_cases hin : inside (input.tagid i)
    · rw [@RangeQuery.exact_iff E (fun i => get (input.tagid i)) _ i _
        (hinside _ hin), and_iff_right hin]
      rcases hpresent i with heq | ⟨hge, hnone⟩
      · refine iff_of_true heq fun hge => ?_
        rw [← heq, hhigh _ hge]
      · rw [hnone, eq_comm]
        exact (imp_iff_right hge).symm
    · exact iff_of_false (RangeQuery.not_exact (houtside _ hin))
        fun h => hin h.1
  rw [statGet_reports_iff hsize]
  · simp only [hexact]
  · intro i _ e hsome
    by_cases hin : inside (input.tagid i)
    · rcases hpresent i with heq | ⟨_, hnone⟩
      · rw [hinside _ hin, ← heq, hsome]
        exact .inr rfl
      · rw [hnone] at hsome
        cases hsome
    · exact .inl (houtside _ hin)

end Ranges

section Rules

variable (filtset : Filtset) (input : FrcOpIn)

/-- The rule with a tag, as it is reported; tags have 16 bits. -/
def Filtset.ruleStat (index : Nat) : Option FrcRuleStat :=
  if index < 2 ^ 16 then
    (aclGetfilterByTagid filtset index).map fun info => info.toStat index
  else none

/-- What the request for rules has to fulfil: the searches stay in the store, a
number behind the last tag is not taken for the tag with its low bits, and the
rules of the range fit. -/
structure Filtset.Answers : Prop where
  inside : ∀ i < input.count, filtset.ReadsInside (input.tagid i)
  noWrap : ∀ i < input.count, 2 ^ 16 ≤ input.index.toNat + i →
    ∀ k < filtset.numFilters, (filtset.filtArr k).cost ≠ input.tagid i
  few : (input.entries filtset.ruleStat).length ≤ maxRule
  signed : 2 ^ 31 ≤ input.num.toNat → input.entries filtset.ruleStat = []

theorem aclGetfilterByTagid_eq_none_iff {tagid : Nat} :
    aclGetfilterByTagid filtset tagid = none ↔
      ∀ k < filtset.numFilters, (filtset.filtArr k).cost ≠ tagid := by
  rw [aclGetfilterByTagid, Option.map_eq_none_iff, List.find?_eq_none]
  simp only [List.mem_range, decide_eq_true_eq]
  exact forall₂_congr fun k _ => not_congr eq_comm

theorem frcoreCmdRuleStatGet_reports_iff :
    ReportsRange (frcoreCmdRuleStatGet filtset input) input
        filtset.ruleStat ↔ filtset.Answers input := by
  rw [frcoreCmdRuleStatGet, statGet_reports_tags_iff (by decide)
    (fun index => (aclGetfilterByTagid filtset index).map
      fun info => info.toStat index) filtset.ReadsInside]
  · simp only [Option.map_eq_none_iff, aclGetfilterByTagid_eq_none_iff]
    constructor
    · rintro ⟨hreads, hfew, hsigned⟩
      exact ⟨fun i hi => (hreads i hi).1, fun i hi => (hreads i hi).2, hfew,
        hsigned⟩
    · intro h
      exact ⟨fun i hi => ⟨h.inside i hi, h.noWrap i hi⟩, h.few, h.signed⟩
  · intro tagid hinside
    rw [ruleStatRound, if_pos hinside]
    cases aclGetfilterByTagid filtset tagid <;> rfl
  · exact fun tagid houtside => if_neg houtside
  · exact fun index hlt => if_pos hlt
  · exact fun index hge => if_neg (Nat.not_lt.mpr hge)

end Rules

section TwoTuples

/-- The table with the counters that the packets have left in it. -/
def FrcoreAcl.withCounters (acl : FrcoreAcl) (pktNum pktBytes : Nat → Nat) :
    FrcoreAcl :=
  { acl with
    filterArr := fun slot =>
      { acl.filterArr slot with
        pktNum := pktNum slot
        pktBytes := pktBytes slot } }

/-- The rule with a tag, as it is reported. -/
def FrcoreAcl.aclStat (acl : FrcoreAcl) (index : Nat) : Option FrcAclStat :=
  if index ∈ aclIndexes ∧ (acl.entry index).enable ≠ 0 then
    some ((acl.entry index).toStat index)
  else none

/-- What the request for two-tuple rules has to fulfil: no tag is below the
first or behind the table, a number behind the last tag is not taken for the tag
with its low bits, and the rules of the range fit. -/
structure FrcoreAcl.Answers (acl : FrcoreAcl) (input : FrcOpIn) : Prop where
  inside : ∀ i < input.count,
    1 ≤ input.tagid i ∧ input.tagid i ≤ frcoreMaxFilters
  noWrap : ∀ i < input.count, 2 ^ 16 ≤ input.index.toNat + i →
    input.tagid i ∈ aclIndexes → (acl.entry (input.tagid i)).enable = 0
  few : (input.entries acl.aclStat).length ≤ maxRule
  signed : 2 ^ 31 ≤ input.num.toNat → input.entries acl.aclStat = []

/-- No entry behind the tags is in use, and every rule in use has a bucket. -/
structure FrcoreAcl.Listed (acl : FrcoreAcl) : Prop where
  spare : ∀ slot, aclMax ≤ slot → (acl.filterArr slot).enable = 0
  bucket : ∀ index ∈ aclIndexes, (acl.entry index).enable ≠ 0 →
    aclGetHashTable (acl.entry index).aclType (acl.entry index).hash ≠ none

theorem runAlloc_spare {crc : Nat → Nat → Fin frcoreMaxFilters}
    {acl : FrcoreAcl} {filed : Nat → Option Nat} (hfiled : acl.Filed crc filed)
    (call : FilterCall) (allocOk : Bool) {slot : Nat} (hslot : aclMax ≤ slot) :
    (call.runAlloc crc allocOk acl).2.filterArr slot = acl.filterArr slot := by
  by_cases hrange : call.OutOfRange
  · rw [FilterCall.runAlloc_outOfRange hrange]
  · by_cases hstuck : acl.Stuck call.index
    · rw [FilterCall.runAlloc_stuck hfiled hrange hstuck]
    · rcases FilterCall.runAlloc_cases hfiled hrange hstuck allocOk with
        ⟨heq, _⟩ | ⟨hkept, _⟩
      · rw [heq]
      · have hindex := FilterCall.index_mem hrange
        rw [aclIndexes, Finset.mem_Icc] at hindex
        refine hkept.entries slot ?_
        simp only [aclIndexStart] at hindex
        omega

theorem runFilterAlloc_spare (crc : Nat → Nat → Fin frcoreMaxFilters)
    (calls : List (FilterCall × Bool)) {slot : Nat} (hslot : aclMax ≤ slot) :
    (runFilterAlloc crc calls).filterArr slot = .zero := by
  induction calls using List.reverseRecOn with
  | nil => rfl
  | append_singleton calls call ih =>
      obtain ⟨filed, hfiled⟩ := runFilterAlloc_filed crc calls
      rw [runFilterAlloc, List.foldl_concat]
      exact (runAlloc_spare hfiled call.1 call.2 hslot).trans ih

theorem runFilterAlloc_listed (crc : Nat → Nat → Fin frcoreMaxFilters)
    (calls : List (FilterCall × Bool)) (pktNum pktBytes : Nat → Nat) :
    ((runFilterAlloc crc calls).withCounters pktNum pktBytes).Listed where
  spare := fun slot hslot =>
    congrArg TwoTupleFilter.enable (runFilterAlloc_spare crc calls hslot)
  bucket := fun index hindex henable hnone => by
    obtain ⟨filed, hfiled⟩ := runFilterAlloc_filed crc calls
    obtain ⟨slot, _, hslot⟩ := hfiled.place_eq hindex henable
    exact absurd (hslot.symm.trans hnone) nofun

theorem aclGetOneFilter_of_inside {acl : FrcoreAcl} (hlisted : acl.Listed)
    {tagid : Nat} (hinside : 1 ≤ tagid ∧ tagid ≤ frcoreMaxFilters) :
    aclGetOneFilter acl tagid = .ofOption (acl.aclStat tagid) := by
  rw [aclGetOneFilter, if_neg (by omega), FrcoreAcl.aclStat]
  by_cases henable : (acl.entry tagid).enable = 0
  · rw [if_pos henable, if_neg fun h => h.2 henable]
    rfl
  · have hindex : tagid ∈ aclIndexes := by
      by_contra hnot
      refine henable (hlisted.spare (tagid - 1) ?_)
      simp only [aclIndexes, aclIndexStart, Finset.mem_Icc] at hnot
      omega
    rw [if_neg henable, if_pos ⟨hindex, henable⟩]
    cases hbucket :
        aclGetHashTable (acl.entry tagid).aclType (acl.entry tagid).hash with
    | none => exact absurd hbucket (hlisted.bucket tagid hindex henable)
    | some slot => rfl

theorem frcoreCmdAclStatGet_reports_iff {acl : FrcoreAcl}
    (hlisted : acl.Listed) (input : FrcOpIn) :
    ReportsRange (frcoreCmdAclStatGet acl input) input acl.aclStat ↔
      acl.Answers input := by
  have hnone : ∀ tagid, acl.aclStat tagid = none ↔
      (tagid ∈ aclIndexes → (acl.entry tagid).enable = 0) := by
    intro tagid
    rw [FrcoreAcl.aclStat, ite_eq_right_iff]
    simp
  rw [frcoreCmdAclStatGet, statGet_reports_tags_iff (by decide) acl.aclStat
    fun tagid => 1 ≤ tagid ∧ tagid ≤ frcoreMaxFilters]
  · simp only [hnone]
    constructor
    · rintro ⟨hreads, hfew, hsigned⟩
      exact ⟨fun i hi => (hreads i hi).1, fun i hi => (hreads i hi).2, hfew,
        hsigned⟩
    · intro h
      exact ⟨fun i hi => ⟨h.inside i hi, h.noWrap i hi⟩, h.few, h.signed⟩
  · exact fun tagid => aclGetOneFilter_of_inside hlisted
  · intro tagid houtside
    rw [aclGetOneFilter, if_pos (by omega)]
  · exact fun index _ => rfl
  · intro index hge
    rw [hnone]
    intro hindex
    rw [aclIndexes, Finset.mem_Icc] at hindex
    simp only [aclMax] at hindex
    omega

/-- What the request for buckets has to fulfil: neither its kind nor a number
is taken for the one with its low bits, and the buckets of the range fit. -/
structure FrcoreAcl.AnswersHash (acl : FrcoreAcl)
    (input : FrcAclHashTableOpIn) : Prop where
  noWrap : ∀ i < input.count,
    acl.bucketStat (input.aclType.setWidth 16).toNat (input.tagid i) ≠ none →
    input.aclType.toNat < 2 ^ 16 ∧ input.index.toNat + i < 2 ^ 16
  few : (input.entries (acl.bucketStat input.aclType.toNat)).length ≤ maxRule
  signed : 2 ^ 31 ≤ input.num.toNat →
    input.entries (acl.bucketStat input.aclType.toNat) = []

theorem aclGetHashTable_ne_none_iff {aclType hash : Nat} :
    aclGetHashTable aclType hash ≠ none ↔
      frcAclSip ≤ aclType ∧ aclType ≤ frcAclDp ∧ hash < frcoreMaxFilters := by
  have hsip : frcAclSip = frcAclUnknown + 1 := rfl
  rw [aclGetHashTable]
  by_cases hkind : aclType ≤ frcAclUnknown ∨ frcAclDp < aclType
  · rw [if_pos hkind]
    exact iff_of_false (not_not_intro rfl) (by omega)
  · rw [if_neg hkind]
    by_cases hhash : frcoreMaxFilters ≤ hash
    · rw [if_pos hhash]
      exact iff_of_false (not_not_intro rfl) (by omega)
    · rw [if_neg hhash]
      exact iff_of_true (Option.some_ne_none _) (by omega)

theorem bucketStat_ne_none_iff {acl : FrcoreAcl} {aclType tagid : Nat} :
    acl.bucketStat aclType tagid ≠ none ↔
      frcAclSip ≤ aclType ∧ aclType ≤ frcAclDp ∧ tagid < frcoreMaxFilters := by
  rw [FrcoreAcl.bucketStat, ne_eq, Option.map_eq_none_iff, ← ne_eq,
    aclGetHashTable_ne_none_iff]

/-- A bucket that exists is looked up under its own number. -/
theorem bucketStat_of_ne_none {acl : FrcoreAcl} {input : FrcAclHashTableOpIn}
    {i : Nat} (h : acl.bucketStat input.aclType.toNat
      (input.index.toNat + i) ≠ none) :
    acl.bucketStat (input.aclType.setWidth 16).toNat (input.tagid i) =
      acl.bucketStat input.aclType.toNat (input.index.toNat + i) := by
  obtain ⟨_, hkind, hnumber⟩ := bucketStat_ne_none_iff.mp h
  simp only [frcAclDp, frcoreMaxFilters] at hkind hnumber
  rw [BitVec.toNat_setWidth, input.tagid_eq, Nat.mod_eq_of_lt (by omega),
    Nat.mod_eq_of_lt (by omega)]

theorem frcoreCmdAclHashTableGet_reports_iff (acl : FrcoreAcl)
    (input : FrcAclHashTableOpIn) :
    ReportsRange (frcoreCmdAclHashTableGet acl input) input.toFrcOpIn
        (acl.bucketStat input.aclType.toNat) ↔ acl.AnswersHash input := by
  have hget : ∀ tagid, aclGetOneHashTable acl input.aclType tagid =
      .ofOption (acl.bucketStat (input.aclType.setWidth 16).toNat tagid) := by
    intro tagid
    rw [aclGetOneHashTable]
    cases acl.bucketStat (input.aclType.setWidth 16).toNat tagid <;> rfl
  have hexact : ∀ i, RangeQuery.Exact
      (fun i => aclGetOneHashTable acl input.aclType (input.tagid i))
      (fun i => acl.bucketStat input.aclType.toNat (input.index.toNat + i)) i ↔
      (acl.bucketStat (input.aclType.setWidth 16).toNat (input.tagid i) ≠ none →
        input.aclType.toNat < 2 ^ 16 ∧ input.index.toNat + i < 2 ^ 16) := by
    intro i
    rw [@RangeQuery.exact_iff _
      (fun i => aclGetOneHashTable acl input.aclType (input.tagid i)) _ i _
      (hget _)]
    constructor
    · intro heq hne
      rw [← heq] at hne
      obtain ⟨_, hkind, hnumber⟩ := bucketStat_ne_none_iff.mp hne
      simp only [frcAclDp, frcoreMaxFilters] at hkind hnumber
      omega
    · intro hwrap
      by_cases hne : acl.bucketStat (input.aclType.setWidth 16).toNat
          (input.tagid i) = none
      · by_contra hdiffer
        refine hdiffer (bucketStat_of_ne_none fun hnone => ?_).symm
        exact hdiffer (hnone.trans hne.symm)
      · obtain ⟨hkind, hnumber⟩ := hwrap hne
        rw [BitVec.toNat_setWidth, input.tagid_eq, Nat.mod_eq_of_lt hkind,
          Nat.mod_eq_of_lt hnumber]
  rw [frcoreCmdAclHashTableGet, statGet_reports_iff (by decide)]
  · simp only [hexact]
    exact ⟨fun h => ⟨h.1, h.2.1, h.2.2⟩, fun h => ⟨h.noWrap, h.few, h.signed⟩⟩
  · intro i _ e hsome
    have hne : acl.bucketStat input.aclType.toNat (input.index.toNat + i) ≠
        none := by
      rw [hsome]
      exact Option.some_ne_none e
    rw [hget, bucketStat_of_ne_none hne, hsome]
    exact .inr rfl

end TwoTuples

section Vlans

variable (input : FrcVlanOpIn)

/-- What the request for counters has to fulfil: the answer holds them, and
they are in the table. -/
def FrcVlanOpIn.Fits : Prop :=
  input.num.toNat ≤ frcCmdRespondDataSz / 8 ∧
    (input.num.toNat ≠ 0 →
      input.slot 0 + input.num.toNat ≤ statVlanIdMax)

theorem FrcVlanOpIn.slot_eq (i : Nat) :
    input.slot i = (input.slot 0 + i) % 2 ^ 32 := by
  simp only [FrcVlanOpIn.slot, BitVec.toNat_add, BitVec.toNat_ofNat]
  omega

/-- The requested counters are in the table when the first and the last are. -/
theorem FrcVlanOpIn.slots_lt_iff
    (hnum : input.num.toNat ≤ frcCmdRespondDataSz / 8) :
    (∀ i < input.num.toNat, input.slot i < statVlanIdMax) ↔
      (input.num.toNat ≠ 0 → input.slot 0 + input.num.toNat ≤ statVlanIdMax) := by
  simp only [frcCmdRespondDataSz] at hnum
  simp only [statVlanIdMax]
  constructor
  · intro hslots hne
    have hfirst := hslots 0 (Nat.pos_of_ne_zero hne)
    have hlast := hslots (input.num.toNat - 1) (by omega)
    rw [input.slot_eq] at hlast
    omega
  · intro hend i hi
    have hend := hend (by omega)
    rw [input.slot_eq]
    omega

theorem frcoreCmdVlanCheckGetStat_isSome_iff (vlanIdStat : Nat → UInt64) :
    (frcoreCmdVlanCheckGetStat vlanIdStat input).isSome ↔ input.Fits := by
  rw [frcoreCmdVlanCheckGetStat, Option.isSome_map,
    RangeQuery.collect_isSome_iff, FrcVlanOpIn.Fits]
  · have hget : ∀ i, (if input.slot i < statVlanIdMax then
        Got.entry (vlanIdStat (input.slot i)) else .outside) ≠ .outside ↔
        input.slot i < statVlanIdMax := by
      intro i
      split
      case isTrue h => exact iff_of_true nofun h
      case isFalse h => exact iff_of_false (not_not_intro rfl) h
    simp only [hget, List.mem_range, List.length_nil, List.length_range,
      Nat.zero_add, ne_eq, List.range_eq_nil]
    constructor
    · rintro ⟨hslots, hroom⟩
      have hnum : input.num.toNat ≤ frcCmdRespondDataSz / 8 := by
        by_cases hzero : input.num.toNat = 0
        · rw [hzero]
          exact Nat.zero_le _
        · exact hroom hzero
      exact ⟨hnum, (input.slots_lt_iff hnum).mp hslots⟩
    · rintro ⟨hnum, hend⟩
      exact ⟨(input.slots_lt_iff hnum).mpr hend, fun _ => hnum⟩
  · intro i _
    split
    · exact nofun
    · exact nofun

end Vlans

/-- The two-tuple table after a history of calls, with any counters. -/
def runFilterCounted (crc : Nat → Nat → Fin frcoreMaxFilters)
    (calls : List (FilterCall × Bool)) (pktNum pktBytes : Nat → Nat) :
    FrcoreAcl :=
  (runFilterAlloc crc calls).withCounters pktNum pktBytes

/-- For all rules, two-tuple tables and counters, each request is answered as it
should be exactly when it fulfils the conditions of its command. -/
theorem rangeRequests_answered_iff (filtset : Filtset)
    (crc : Nat → Nat → Fin frcoreMaxFilters)
    (calls : List (FilterCall × Bool)) (pktNum pktBytes : Nat → Nat)
    (vlanIdStat : Nat → UInt64) (input : FrcOpIn)
    (hashInput : FrcAclHashTableOpIn) (vlanInput : FrcVlanOpIn) :
    (ReportsRange (frcoreCmdRuleStatGet filtset input) input
      filtset.ruleStat ↔ filtset.Answers input) ∧
    (ReportsRange (frcoreCmdAclStatGet
        (runFilterCounted crc calls pktNum pktBytes) input) input
      (runFilterCounted crc calls pktNum pktBytes).aclStat ↔
        (runFilterCounted crc calls pktNum pktBytes).Answers input) ∧
    (ReportsRange (frcoreCmdAclHashTableGet
        (runFilterCounted crc calls pktNum pktBytes) hashInput)
        hashInput.toFrcOpIn
      ((runFilterCounted crc calls pktNum pktBytes).bucketStat
        hashInput.aclType.toNat) ↔
        (runFilterCounted crc calls pktNum pktBytes).AnswersHash hashInput) ∧
    ((frcoreCmdVlanCheckGetStat vlanIdStat vlanInput).isSome ↔
      vlanInput.Fits) :=
  ⟨frcoreCmdRuleStatGet_reports_iff filtset input,
    frcoreCmdAclStatGet_reports_iff
      (runFilterAlloc_listed crc calls pktNum pktBytes) input,
    frcoreCmdAclHashTableGet_reports_iff _ hashInput,
    frcoreCmdVlanCheckGetStat_isSome_iff vlanInput vlanIdStat⟩

/-- Five buckets of the first kind do not fit into the answer. -/
theorem fiveBuckets_not_answered :
    ¬ ∀ (acl : FrcoreAcl) (input : FrcAclHashTableOpIn),
      ReportsRange (frcoreCmdAclHashTableGet acl input) input.toFrcOpIn
        (acl.bucketStat input.aclType.toNat) := by
  intro h
  have hanswers := (frcoreCmdAclHashTableGet_reports_iff frcoreFilterInit
    ⟨⟨0, 5⟩, 1⟩).mp (h frcoreFilterInit ⟨⟨0, 5⟩, 1⟩)
  exact absurd hanswers.few (by decide)

end Barley
