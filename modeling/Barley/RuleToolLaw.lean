/-
What the tool prints.  Over any run of the card, `rule get` shows the rules of
the range as they were added, and `rule cnt` sums their counters.
-/
import Barley.RuleTool
import Mathlib.Data.UInt

namespace Barley

section Wire

variable {wire : RuleWire}
  (hswap : ∀ data blocks,
    wire.octeonSwap8BData data blocks = Bytes.swapWords blocks data)

include hswap

/-- The card reads the request that the tool has made. -/
theorem RuleWire.request_eq (input : FrcOpIn) :
    frcOpInOfCard (wire.request input) = input := by
  have hpacked : ∀ order, Layout.packed
      ((input.members order).map Member.width) = true := by
    intro order
    cases order with
    | little => exact (by decide : Layout.packed [4, 4] = true)
    | big => exact (by decide : Layout.packed [4, 4] = true)
  have hbytes := fun order => Layout.image_of_packed order (hpacked order)
  have hlen : (Layout.image .little (input.members .little)).length = 8 := by
    rw [hbytes, Layout.length_flatMap_bytes]
    rfl
  have hcmd : (wire.octeonSwap8BData wire.cmd (wire.cmd.length >>> 3)).length =
      8 := by
    have hword := Bytes.swapWords_append 0 wire.cmd_length []
    rw [List.append_nil, Bytes.swapWords, List.append_nil] at hword
    rw [hswap, wire.cmd_length]
    exact (congrArg List.length hword).trans
      (List.length_reverse.trans wire.cmd_length)
  have hparam : wire.request input = Layout.image .big (input.members .big) := by
    have hmembers : Bytes.swapWords 1
        (Layout.image .little (input.members .little)) =
          Layout.image .big (input.members .big) := by
      rw [hbytes, hbytes]
      exact Bytes.swapWords_members [input.members .little]
        (by simp [FrcOpIn.members])
    have hdata : frcdrvAllocCmdSi wire.octeonSwap8BData wire.cmd 8
        (some (Layout.image .little (input.members .little))) =
          wire.octeonSwap8BData wire.cmd (wire.cmd.length >>> 3) ++
            Layout.image .big (input.members .big) := by
      simp only [frcdrvAllocCmdSi]
      rw [if_neg (by decide), List.take_of_length_le (Nat.le_of_eq hlen),
        hswap _ (8 >>> 3)]
      exact congrArg _ hmembers
    simp only [RuleWire.request, hlen]
    rw [hdata, ← hcmd, List.drop_left]
  rw [frcOpInOfCard, hparam]
  have hread := Layout.read_image .big (input.members .big) []
  rw [List.append_nil] at hread
  have hwidths : (input.members .big).map Member.width = [4, 4] := rfl
  rw [hwidths] at hread
  rw [hread]
  simp [FrcOpIn.members]

/-- Only the head of the answer is swapped. -/
theorem RuleWire.answer_eq (out : List UInt8) :
    (frcdrvCoreRespondDispatch wire.octeonSwap8BData (wire.head ++ out)).drop 8 =
      out := by
  have hrev : wire.head.reverse.length = 8 := by
    rw [List.length_reverse, wire.head_length]
  rw [frcdrvCoreRespondDispatch, hswap,
    Bytes.swapWords_append 0 wire.head_length, ← hrev, List.drop_left,
    Bytes.swapWords]

end Wire

section Unpacking

theorem takeMany_bytes {α : Type} {unpack : Unpack α} {image : α → List UInt8}
    (hunpack : ∀ value rest, unpack (image value ++ rest) = (value, rest))
    (values : List α) (rest : List UInt8) :
    takeMany unpack values.length (values.flatMap image ++ rest) =
      (values, rest) := by
  induction values with
  | nil => rfl
  | cons value values ih =>
      rw [List.flatMap_cons, List.append_assoc, List.length_cons, takeMany,
        bind_unpack (hunpack value _), bind_unpack ih]
      rfl

theorem frcRuleStatUnpack_image (stat : FrcRuleStat) (rest : List UInt8) :
    frcRuleStatUnpack .little (frcRuleStatT.image .big stat ++ rest) =
      (stat, rest) := by
  rw [stat.words.image_eq]
  exact unpack_stat_bytes rest
    (fun rest => frcRuleUnpack_bytes rest stat.rule) stat.stat FrcRuleStat.mk

/-- The tool gets the entries of the answer, and no more. -/
theorem ruleStatOutUnpack_image {out : StatOut FrcRuleStat}
    (hnum : out.num = out.stat.length) (hfew : out.stat.length ≤ maxRule)
    (stack : List UInt8) :
    ruleStatOutUnpack (out.image stack) = (out.stat, stack) := by
  have hsmall : (UInt32.ofNat out.stat.length).toNat = out.stat.length := by
    refine UInt32.toNat_ofNat_of_lt' ?_
    simp only [maxRule] at hfew
    simp only [UInt32.size]
    omega
  rw [StatOut.image, hnum, List.append_assoc, ruleStatOutUnpack,
    bind_unpack (takeU32_bytes _ _), hsmall]
  exact takeMany_bytes frcRuleStatUnpack_image out.stat stack

end Unpacking

section Table

variable {events : List RuleEvent} {rules : RuleTable}

theorem RuleEvent.edit_added (found : RuleTable)
    (added : Nat → Option FrcRule)
    (h : ∀ tag, found tag = (added tag).map FrcRule.args) (event : RuleEvent)
    (tag : Nat) :
    event.edit found tag = (match event with
      | .add rule _ _ =>
          if tag = rule.index.toNat then some rule else added tag
      | .del input => if input.Covers tag then none else added tag
      | .clearAll input => if input.Covers tag then none else added tag
      | .enable _ | .update | .statClear _ | .packet _ => added tag).map
        FrcRule.args := by
  cases event with
  | add rule hstart hmax =>
      by_cases htag : tag = rule.index.toNat
      · subst htag
        simp [RuleEvent.edit]
      · simp [RuleEvent.edit, htag, h]
  | del input =>
      simp only [RuleEvent.edit, RuleTable.clear, h]
      split_ifs <;> rfl
  | clearAll input =>
      simp only [RuleEvent.edit, RuleTable.clear, h]
      split_ifs <;> rfl
  | enable value => exact h tag
  | update => exact h tag
  | statClear input => exact h tag
  | packet work => exact h tag

/-- The rules of the table are those that were added. -/
theorem rulesAfter_added (events : List RuleEvent) (tag : Nat) :
    rulesAfter events tag = (addedRules events tag).map FrcRule.args := by
  induction events using List.reverseRecOn generalizing tag with
  | nil => rfl
  | append_singleton events event ih =>
      rw [rulesAfter, addedRules, List.foldl_append, List.foldl_append]
      exact RuleEvent.edit_added _ _ ih event tag

theorem addedRules_index {tag : Nat} {rule : FrcRule}
    (h : addedRules events tag = some rule) : rule.index.toNat = tag := by
  induction events using List.reverseRecOn with
  | nil => cases h
  | append_singleton events event ih =>
      rw [addedRules, List.foldl_append] at h
      cases event with
      | add added hstart hmax =>
          simp only [List.foldl_cons, List.foldl_nil] at h
          split_ifs at h with htag
          · cases h
            exact htag.symm
          · exact ih h
      | del input =>
          simp only [List.foldl_cons, List.foldl_nil] at h
          split_ifs at h
          exact ih h
      | clearAll input =>
          simp only [List.foldl_cons, List.foldl_nil] at h
          split_ifs at h
          exact ih h
      | enable value => exact ih h
      | update => exact ih h
      | statClear input => exact ih h
      | packet work => exact ih h

variable {filtset : Filtset}

/-- A rule is read back as it was added. -/
theorem Filtset.Has.ruleStat (h : filtset.Has rules)
    {added : Nat → Option FrcRule}
    (hadded : ∀ tag, rules tag = (added tag).map FrcRule.args)
    (hindex : ∀ tag rule, added tag = some rule → rule.index.toNat = tag)
    (tag : Nat) :
    filtset.ruleStat tag = (added tag).map fun rule =>
      ⟨rule, filtset.reported tag⟩ := by
  obtain ⟨map, hstores, hargs, _⟩ := h
  have hentry := hargs tag
  rw [hadded] at hentry
  cases hrule : added tag with
  | none =>
      rw [hrule, Option.map_none, Option.map_eq_none_iff] at hentry
      have hslot := hstores.slots tag
      rw [hentry, Option.map_none] at hslot
      rw [Filtset.ruleStat, aclGetfilterByTagid, find?_of_absent hslot]
      simp
  | some rule =>
      rw [hrule, Option.map_some] at hentry
      obtain ⟨entry, hsome, heq⟩ := Option.map_eq_some_iff.mp hentry
      have hslot := hstores.slots tag
      rw [hsome, Option.map_some] at hslot
      obtain ⟨i, _, hfind, hfilt, _⟩ := find?_of_present hslot
      have htag := hindex tag rule hrule
      have hlt : tag < 2 ^ 16 := htag ▸ rule.index.toNat_lt
      rw [Filtset.ruleStat, if_pos hlt, aclGetfilterByTagid, hfind]
      simp only [Option.map_some, FilterInfo.toStat, hfilt, getfileter_filter,
        heq]
      simp only [RuleEntry.filter, heq, FrcRule.args, ← htag,
        UInt32.ofNat_toNat, UInt16.ofNat_toNat, Filtset.reported]

end Table

section Pages

variable {wire : RuleWire} {filtset : Filtset} {rules : RuleTable}
  {input : FrcOpIn}

/-- The searches of a request within the tags stay in the store. -/
theorem Filtset.Has.answers (h : filtset.Has rules)
    (hfew : input.num.toNat ≤ maxRule)
    (hstop : input.index.toNat + input.num.toNat ≤ aclMax + 1) :
    filtset.Answers input := by
  obtain ⟨map, hstores, _⟩ := h
  have hnum := hstores.numFilters_le
  simp only [maxRule] at hfew
  simp only [aclMax] at hstop hnum
  have hcount : input.count = input.num.toNat := by
    rw [FrcOpIn.count_eq, if_pos (by omega)]
  have htag : ∀ i < input.count, input.tagid i = input.index.toNat + i := by
    intro i hi
    rw [FrcOpIn.tagid_eq, Nat.mod_eq_of_lt (by omega)]
  constructor
  · intro i hi
    rw [htag i hi, Filtset.ReadsInside]
    split
    · rename_i info hinfo
      rw [aclGetfilterByTagid] at hinfo
      obtain ⟨slot, hfind, rfl⟩ := Option.map_eq_some_iff.mp hinfo
      have hslot := List.mem_range.mp (List.find?_range_eq_some.mp hfind).2.1
      simp only [mppMaxFilters, mppMaxRfcStat]
      omega
    · simp only [mppMaxFilters]
      omega
  · intro i hi hge
    omega
  · refine (List.length_filterMap_le ..).trans ?_
    rw [List.length_range]
    simp only [maxRule]
    omega
  · intro hge
    omega

theorem FrcOpIn.entries_eq {E : Type} (input : FrcOpIn)
    (present : Nat → Option E) :
    input.entries present =
      (List.range' input.index.toNat input.num.toNat).filterMap present := by
  rw [FrcOpIn.entries, List.range'_eq_map_range, List.filterMap_map]
  rfl

theorem foldl_addStat (rows : List FrcRuleStat) (cnt : FrcPktStat) :
    rows.foldl addStat cnt =
      ⟨cnt.pkts + (rows.map fun row => row.stat.pkts).sum,
        cnt.bytes + (rows.map fun row => row.stat.bytes).sum⟩ := by
  induction rows generalizing cnt with
  | nil => simp
  | cons row rows ih =>
      rw [List.foldl_cons, ih]
      simp only [addStat, List.map_cons, List.sum_cons, UInt32.add_assoc]

variable (hswap : ∀ data blocks,
    wire.octeonSwap8BData data blocks = Bytes.swapWords blocks data)

include hswap

/-- The answer to a page has the rules with its tags. -/
theorem frcapiRuleStatGet_rows (h : filtset.Has rules)
    (hfew : input.num.toNat ≤ maxRule)
    (hstop : input.index.toNat + input.num.toNat ≤ aclMax + 1) :
    ∃ buf, frcapiRuleStatGet wire filtset input = some buf ∧
      (ruleStatOutUnpack buf).1 =
        (List.range' input.index.toNat input.num.toNat).filterMap
          filtset.ruleStat := by
  obtain ⟨out, hout, hstat, hnum⟩ :=
    (frcoreCmdRuleStatGet_reports_iff filtset input).mpr
      (h.answers hfew hstop)
  have hlen : out.stat.length ≤ maxRule := by
    rw [hstat]
    exact List.length_take_le ..
  have hall : (input.entries filtset.ruleStat).take maxRule =
      input.entries filtset.ruleStat :=
    List.take_of_length_le (h.answers hfew hstop).few
  rw [frcapiRuleStatGet, RuleWire.request_eq hswap, hout]
  refine ⟨_, rfl, ?_⟩
  dsimp only
  rw [RuleWire.answer_eq hswap, ruleStatOutUnpack_image hnum hlen, hstat, hall,
    FrcOpIn.entries_eq]

/-- A loop over the pages of a range of tags uses the rules of the range, page
by page. -/
theorem rulePages_eq (h : filtset.Has rules) (hok : RuleArgsOk input)
    {S : Type} (use : S → List FrcRuleStat → S) (init : S) :
    rulePages wire filtset use input init =
      some ((List.range (RangeQuery.pages maxRule input.num.toNat)).foldl
        (fun acc j => use acc ((List.range'
          (input.index.toNat + j * maxRule)
          (RangeQuery.pageLength maxRule input.num.toNat j)).filterMap
            filtset.ruleStat)) init) := by
  obtain ⟨hindex, hnum, hsum⟩ := hok
  simp only [ruleMax, BitVec.toNat_add] at hindex hnum hsum
  have hpage : ∀ j ∈ List.range (RangeQuery.pages maxRule input.num.toNat),
      ∀ acc, ((frcapiRuleStatGet wire filtset (rulePage input j)).map
        fun buf => use acc (ruleStatOutUnpack buf).1) =
      some (use acc ((List.range' (input.index.toNat + j * maxRule)
        (RangeQuery.pageLength maxRule input.num.toNat j)).filterMap
          filtset.ruleStat)) := by
    intro j hj acc
    have hle := RangeQuery.pageLength_le (by decide : 0 < maxRule)
      input.num.toNat j
    have hfits := RangeQuery.page_stop_le maxRule input.num.toNat
      (List.mem_range.mp hj)
    simp only [maxRule] at hle hfits
    have hindexNat : (rulePage input j).index.toNat =
        input.index.toNat + j * maxRule := by
      simp only [rulePage, maxRule, BitVec.toNat_add, BitVec.toNat_ofNat]
      omega
    have hnumNat : (rulePage input j).num.toNat =
        RangeQuery.pageLength maxRule input.num.toNat j := by
      simp only [rulePage, BitVec.toNat_ofNat]
      refine Nat.mod_eq_of_lt ?_
      simp only [maxRule]
      omega
    obtain ⟨buf, hbuf, hrows⟩ := frcapiRuleStatGet_rows hswap h
      (by rw [hnumNat]; exact hle)
      (by
        rw [hindexNat, hnumNat]
        simp only [maxRule, aclMax]
        omega : (rulePage input j).index.toNat +
          (rulePage input j).num.toNat ≤ aclMax + 1)
    rw [hbuf, Option.map_some, hrows, hindexNat, hnumNat]
  rw [rulePages]
  clear hindex hnum hsum
  generalize List.range (RangeQuery.pages maxRule input.num.toNat) = js at hpage
  induction js generalizing init with
  | nil => rfl
  | cons j js ih =>
      rw [List.foldlM_cons, hpage j List.mem_cons_self, List.foldl_cons]
      exact ih _ fun other hmem => hpage other (List.mem_cons_of_mem _ hmem)

end Pages

end Barley
