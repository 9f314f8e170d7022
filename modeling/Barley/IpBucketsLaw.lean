/-
What the tables of addresses keep over any sequence of calls, and exactly which
calls break it.
-/
import Barley.GuardedRuns
import Barley.IpBuckets

namespace Barley

open SlotBucket (Distinct lookup firstFit occupied)

/-- Each address is in one slot at most, the counters count the slots in use,
and the addresses that are found are the known ones. -/
structure IpHistory.Correct (crc : Nat → Fin maxAclIpNum)
    (history : IpHistory) : Prop where
  once : ∀ side index,
    Distinct 0 maxAclIpHashBucketLen (history.acl.ips side index)
  counted : ∀ side index, history.acl.cnt side index =
    occupied 0 maxAclIpHashBucketLen (history.acl.ips side index)
  found : ∀ side ip, ip ≠ 0 → mppCmpIp side crc history.acl ip =
    (history.known side ip).map fun tagid => tagid + mppAclIpStart

/-- An address that is in its bucket is not behind a vacant slot; one that is
not gets a vacant slot and a tag of the array.  When a tag is deleted, every
address that is found with it is the one the tag remembers; the same number as a
source and as a destination are two addresses, as the tag remembers its kind
too. -/
def IpHistory.Allows (crc : Nat → Fin maxAclIpNum) (history : IpHistory) :
    IpCall → Prop
  | .insert side tagid ip =>
      match lookup maxAclIpHashBucketLen
          (history.acl.ips side (crc ip)) ip with
      | some i => ∀ j < i, history.acl.ips side (crc ip) j ≠ 0
      | none => tagid < maxAclIpNum ∧
          ∃ i < maxAclIpHashBucketLen, history.acl.ips side (crc ip) i = 0
  | .del tagid => ∀ side ip, ip ≠ 0 →
      mppCmpIp side crc history.acl ip = some (tagid + mppAclIpStart) →
      history.acl.tagip tagid = ip ∧ history.acl.ipflag tagid = side.flag

/-- What holds as long as every call is allowed. -/
structure IpHistory.Inv (crc : Nat → Fin maxAclIpNum)
    (history : IpHistory) : Prop where
  correct : history.Correct crc
  placed : ∀ side index, ∀ i < maxAclIpHashBucketLen,
    history.acl.ips side index i ≠ 0 →
    (crc (history.acl.ips side index i)).val = index
  tags : ∀ side ip tagid, ip ≠ 0 → history.known side ip = some tagid →
    tagid < maxAclIpNum
  owner : ∀ tagid, history.acl.tagip tagid ≠ 0 →
    ∃ side, history.acl.ipflag tagid = side.flag ∧
      history.known side (history.acl.tagip tagid) = some tagid

section Write

variable (acl : MppAclIp) (side : IpSide) (index i : Nat)
  (entry : MppAclipHash) (cnt tagid flag : Nat)

theorem write_ips_self :
    (acl.write side index i entry cnt tagid flag).ips side index =
      Function.update (acl.ips side index) i entry.ip := by
  funext j
  simp only [MppAclIp.ips, MppAclIp.write, Function.update_self]
  by_cases hj : j = i
  · subst hj
    rw [Function.update_self, Function.update_self]
  · rw [Function.update_of_ne hj, Function.update_of_ne hj, MppAclIp.ips]

theorem write_iphash_of_ne {side' : IpSide} {index' : Nat}
    (hne : ¬ (side' = side ∧ index' = index)) :
    (acl.write side index i entry cnt tagid flag).iphash side' index' =
      acl.iphash side' index' := by
  simp only [MppAclIp.write]
  by_cases hside : side' = side
  · subst hside
    rw [Function.update_self, Function.update_of_ne fun h => hne ⟨rfl, h⟩]
  · rw [Function.update_of_ne hside]

theorem write_ips_of_ne {side' : IpSide} {index' : Nat}
    (hne : ¬ (side' = side ∧ index' = index)) :
    (acl.write side index i entry cnt tagid flag).ips side' index' =
      acl.ips side' index' := by
  funext j
  rw [MppAclIp.ips, write_iphash_of_ne acl side index i entry cnt tagid flag hne,
    MppAclIp.ips]

theorem write_cnt_self :
    (acl.write side index i entry cnt tagid flag).cnt side index = cnt := by
  simp only [MppAclIp.write, Function.update_self]

theorem write_cnt_of_ne {side' : IpSide} {index' : Nat}
    (hne : ¬ (side' = side ∧ index' = index)) :
    (acl.write side index i entry cnt tagid flag).cnt side' index' =
      acl.cnt side' index' := by
  simp only [MppAclIp.write]
  by_cases hside : side' = side
  · subst hside
    rw [Function.update_self, Function.update_of_ne fun h => hne ⟨rfl, h⟩]
  · rw [Function.update_of_ne hside]

/-- What holds of the written bucket and of the buckets that are not written
holds of all. -/
theorem forall_buckets_of_write
    {P : (Nat → Nat) → Nat → Nat → Prop}
    (h : ∀ side' index', P (acl.ips side' index') (acl.cnt side' index') index')
    (hself : P (Function.update (acl.ips side index) i entry.ip) cnt index)
    (side' : IpSide) (index' : Nat) :
    P ((acl.write side index i entry cnt tagid flag).ips side' index')
      ((acl.write side index i entry cnt tagid flag).cnt side' index')
      index' := by
  by_cases hsame : side' = side ∧ index' = index
  · obtain ⟨rfl, rfl⟩ := hsame
    rw [write_ips_self, write_cnt_self]
    exact hself
  · rw [write_ips_of_ne acl side index i entry cnt tagid flag hsame,
      write_cnt_of_ne acl side index i entry cnt tagid flag hsame]
    exact h side' index'

end Write

section Search

variable {crc : Nat → Fin maxAclIpNum} {acl : MppAclIp} {side : IpSide}
  {ip tag : Nat}

theorem mppCmpIp_eq_some_iff
    (honce : Distinct 0 maxAclIpHashBucketLen (acl.ips side (crc ip)))
    (hip : ip ≠ 0) :
    mppCmpIp side crc acl ip = some tag ↔ ∃ i < maxAclIpHashBucketLen,
      acl.iphash side (crc ip) i = ⟨ip, tag⟩ := by
  rw [mppCmpIp, Option.map_eq_some_iff]
  refine exists_congr fun i => ?_
  rw [honce.lookup_eq_some_iff hip, and_assoc]
  refine and_congr_right fun _ => ?_
  constructor
  · rintro ⟨hslot, htag⟩
    rw [← htag]
    exact congrArg (fun slot => MppAclipHash.mk slot _) hslot
  · intro hentry
    rw [MppAclIp.ips, hentry]
    exact ⟨rfl, rfl⟩

theorem mppCmpIp_eq_none_iff :
    mppCmpIp side crc acl ip = none ↔ ∀ i < maxAclIpHashBucketLen,
      acl.ips side (crc ip) i ≠ ip := by
  rw [mppCmpIp, Option.map_eq_none_iff, SlotBucket.lookup_eq_none_iff]

/-- Writing a slot that holds no other address leaves the search for an address
as it was. -/
theorem mppCmpIp_write_of_ne {index i cnt tagid flag written : Nat}
    {side' : IpSide} {entry : MppAclipHash}
    (honce : ∀ side other, Distinct 0 maxAclIpHashBucketLen
      (acl.ips side other))
    (honce' : ∀ side other, Distinct 0 maxAclIpHashBucketLen
      ((acl.write side' index i entry cnt tagid flag).ips side other))
    (hentry : entry.ip = 0 ∨ entry.ip = written)
    (hslot : acl.ips side' index i = 0 ∨ acl.ips side' index i = written)
    (hip : ip ≠ 0) (hne : ¬ (side = side' ∧ ip = written)) :
    mppCmpIp side crc (acl.write side' index i entry cnt tagid flag) ip =
      mppCmpIp side crc acl ip := by
  ext tag
  rw [mppCmpIp_eq_some_iff (honce' side _) hip,
    mppCmpIp_eq_some_iff (honce side _) hip]
  by_cases hsame : side = side' ∧ (crc ip).val = index
  · obtain ⟨rfl, rfl⟩ := hsame
    have hwritten : ip ≠ written := fun h => hne ⟨rfl, h⟩
    refine exists_congr fun j => and_congr_right fun _ => ?_
    simp only [MppAclIp.write, Function.update_self]
    by_cases hj : j = i
    · subst hj
      rw [Function.update_self]
      refine iff_of_false (fun h => ?_) fun h => ?_
      · rw [h] at hentry
        exact hentry.elim hip hwritten
      · rw [MppAclIp.ips, h] at hslot
        exact hslot.elim hip hwritten
    · rw [Function.update_of_ne hj]
  · rw [write_iphash_of_ne acl side' index i entry cnt tagid flag hsame]

end Search

section Insert

variable {crc : Nat → Fin maxAclIpNum} {history : IpHistory} {side : IpSide}
  {tagid ip : Nat}

theorem inc32_occupied {slots : Nat → Nat} :
    inc32 (occupied 0 maxAclIpHashBucketLen slots) =
      occupied 0 maxAclIpHashBucketLen slots + 1 := by
  have hle : occupied 0 maxAclIpHashBucketLen slots ≤ maxAclIpHashBucketLen :=
    SlotBucket.occupied_le
  simp only [maxAclIpHashBucketLen] at hle ⊢
  exact Nat.mod_eq_of_lt (by omega)

/-- An address that is known is in its bucket. -/
theorem IpHistory.Correct.known_eq_none (h : history.Correct crc)
    (hip : ip ≠ 0) (habsent : ∀ j < maxAclIpHashBucketLen,
      history.acl.ips side (crc ip) j ≠ ip) :
    history.known side ip = none := by
  have hfound := h.found side ip hip
  rw [mppCmpIp_eq_none_iff.mpr habsent] at hfound
  exact Option.map_eq_none_iff.mp hfound.symm

/-- What holds of every single bucket. -/
structure BucketSound (crc : Nat → Fin maxAclIpNum) (slots : Nat → Nat)
    (cnt index : Nat) : Prop where
  once : Distinct 0 maxAclIpHashBucketLen slots
  counted : cnt = occupied 0 maxAclIpHashBucketLen slots
  placed : ∀ j < maxAclIpHashBucketLen, slots j ≠ 0 →
    (crc (slots j)).val = index

theorem IpHistory.Inv.bucketSound (hinv : history.Inv crc) (side : IpSide)
    (index : Nat) :
    BucketSound crc (history.acl.ips side index) (history.acl.cnt side index)
      index :=
  ⟨hinv.correct.once side index, hinv.correct.counted side index,
    hinv.placed side index⟩

theorem BucketSound.fill {slots : Nat → Nat} {cnt i : Nat}
    (h : BucketSound crc slots cnt (crc ip)) (hip : ip ≠ 0)
    (hi : i < maxAclIpHashBucketLen) (hvacant : slots i = 0)
    (habsent : ∀ j < maxAclIpHashBucketLen, slots j ≠ ip) :
    BucketSound crc (Function.update slots i ip) (inc32 cnt) (crc ip) where
  once := (SlotBucket.distinct_fill_iff hi hvacant hip h.once).mpr habsent
  counted := by
    rw [SlotBucket.occupied_fill hi hvacant hip, h.counted, inc32_occupied]
  placed j hj hne := by
    by_cases hji : j = i
    · rw [hji, Function.update_self]
    · rw [Function.update_of_ne hji] at hne ⊢
      exact h.placed j hj hne

theorem BucketSound.clear {slots : Nat → Nat} {cnt index i : Nat}
    (h : BucketSound crc slots cnt index) (hi : i < maxAclIpHashBucketLen)
    (hne : slots i ≠ 0) :
    BucketSound crc (Function.update slots i 0) (dec32 cnt) index where
  once := h.once.clear
  counted := by
    have hclear := SlotBucket.occupied_clear hi hne
    have hle : occupied 0 maxAclIpHashBucketLen slots ≤
        maxAclIpHashBucketLen := SlotBucket.occupied_le
    rw [h.counted]
    simp only [maxAclIpHashBucketLen] at hle hclear ⊢
    rw [← hclear, dec32_eq (by omega) (by omega), Nat.add_sub_cancel]
  placed j hj hne' := by
    have hji : j ≠ i := by
      rintro rfl
      exact hne' (Function.update_self ..)
    rw [Function.update_of_ne hji] at hne' ⊢
    exact h.placed j hj hne'

/-- An address that is not in its bucket is written into a vacant slot. -/
theorem IpHistory.Inv.fill (hinv : history.Inv crc) (hip : ip ≠ 0)
    (htagid : tagid < maxAclIpNum) {i : Nat} (hi : i < maxAclIpHashBucketLen)
    (hvacant : history.acl.ips side (crc ip) i = 0)
    (habsent : ∀ j < maxAclIpHashBucketLen,
      history.acl.ips side (crc ip) j ≠ ip)
    {known : IpSide → Nat → Option Nat} (hself : known side ip = some tagid)
    (hothers : ∀ side' other, other ≠ 0 → ¬ (side' = side ∧ other = ip) →
      known side' other = history.known side' other) :
    IpHistory.Inv crc ⟨history.acl.write side (crc ip) i
      ⟨ip, tagid + mppAclIpStart⟩ (inc32 (history.acl.cnt side (crc ip)))
      tagid side.flag, known⟩ := by
  have honce := hinv.correct.once
  have hsound := forall_buckets_of_write history.acl side (crc ip) i
    ⟨ip, tagid + mppAclIpStart⟩ (inc32 (history.acl.cnt side (crc ip))) tagid
    side.flag hinv.bucketSound
    ((hinv.bucketSound side (crc ip)).fill hip hi hvacant habsent)
  have honce' := fun side' index' => (hsound side' index').once
  refine ⟨⟨honce', fun side' index' => (hsound side' index').counted, ?_⟩,
    fun side' index' => (hsound side' index').placed, ?_, ?_⟩
  · intro side' other hother
    by_cases hsame : side' = side ∧ other = ip
    · obtain ⟨rfl, rfl⟩ := hsame
      simp only [hself, Option.map_some]
      refine (mppCmpIp_eq_some_iff (honce' _ _) hip).mpr ⟨i, hi, ?_⟩
      simp only [MppAclIp.write, Function.update_self]
    · simp only [hothers side' other hother hsame]
      rw [mppCmpIp_write_of_ne honce honce' (.inr rfl) (.inl hvacant) hother
        hsame, hinv.correct.found side' other hother]
  · intro side' other tagid' hother hknown
    by_cases hsame : side' = side ∧ other = ip
    · obtain ⟨rfl, rfl⟩ := hsame
      simp only [hself, Option.some.injEq] at hknown
      exact hknown ▸ htagid
    · simp only [hothers side' other hother hsame] at hknown
      exact hinv.tags side' other tagid' hother hknown
  · intro tagid' hne
    simp only [MppAclIp.write] at hne ⊢
    by_cases htag : tagid' = tagid
    · subst htag
      simp only [Function.update_self]
      exact ⟨side, rfl, hself⟩
    · simp only [Function.update_of_ne htag] at hne ⊢
      obtain ⟨side', hflag, hknown⟩ := hinv.owner tagid' hne
      refine ⟨side', hflag, ?_⟩
      rw [hothers side' _ hne, hknown]
      rintro ⟨rfl, heq⟩
      rw [heq, hinv.correct.known_eq_none hip habsent] at hknown
      cases hknown

/-- What an insertion does: nothing, since the address is there; it fills a
vacant slot; or it overwrites the slot of another address. -/
theorem mppInsertIp_cases (acl : MppAclIp) :
    (∃ i, firstFit 0 maxAclIpHashBucketLen (acl.ips side (crc ip)) ip =
        some i ∧ acl.ips side (crc ip) i = ip ∧
        mppInsertIp side crc acl tagid ip = some (-1, acl)) ∨
      (∃ i, firstFit 0 maxAclIpHashBucketLen (acl.ips side (crc ip)) ip =
        some i ∧ acl.ips side (crc ip) i = 0 ∧
        mppInsertIp side crc acl tagid ip = insertAt side crc acl tagid ip i) ∨
      (firstFit 0 maxAclIpHashBucketLen (acl.ips side (crc ip)) ip = none ∧
        mppInsertIp side crc acl tagid ip = insertAt side crc acl tagid ip
          (acl.cnt side (crc ip) % maxAclIpHashBucketLen)) := by
  rw [mppInsertIp]
  cases hfit : firstFit 0 maxAclIpHashBucketLen (acl.ips side (crc ip)) ip with
  | none => exact .inr (.inr ⟨rfl, rfl⟩)
  | some i =>
      obtain ⟨_, hslot⟩ := SlotBucket.firstFit_some hfit
      by_cases hvacant : acl.ips side (crc ip) i = 0
      · exact .inr (.inl ⟨i, rfl, hvacant, if_pos hvacant⟩)
      · exact .inl ⟨i, rfl, hslot.resolve_left hvacant, if_neg hvacant⟩

theorem IpHistory.step_insertAt {i : Nat}
    (h : mppInsertIp side crc history.acl tagid ip =
      insertAt side crc history.acl tagid ip i) :
    history.step crc (.insert side tagid ip) =
      if tagid < maxAclIpNum then
        some ⟨history.acl.write side (crc ip) i ⟨ip, tagid + mppAclIpStart⟩
          (inc32 (history.acl.cnt side (crc ip))) tagid side.flag,
          history.noteInsert crc side tagid ip⟩
      else none := by
  rw [IpHistory.step, h, insertAt]
  split
  · rfl
  · rfl

/-- A call is either allowed and keeps the invariant, or it is not and spoils
the tables. -/
def IpHistory.Decided (crc : Nat → Fin maxAclIpNum) (history : IpHistory)
    (call : IpCall) : Prop :=
  (history.Allows crc call ∧
    ∃ next, history.step crc call = some next ∧ next.Inv crc) ∨
  (¬ history.Allows crc call ∧
    ∀ next, history.step crc call = some next → ¬ next.Correct crc)

/-- The address is in its bucket, and no vacant slot comes before it. -/
theorem IpHistory.Inv.insert_present (hinv : history.Inv crc) (hip : ip ≠ 0)
    {i : Nat} (hfit : firstFit 0 maxAclIpHashBucketLen
      (history.acl.ips side (crc ip)) ip = some i)
    (hslot : history.acl.ips side (crc ip) i = ip)
    (hinsert : mppInsertIp side crc history.acl tagid ip =
      some (-1, history.acl)) :
    history.Decided crc (.insert side tagid ip) := by
  obtain ⟨hi, _⟩ := SlotBucket.firstFit_some hfit
  have hlookup := ((hinv.correct.once side (crc ip)).lookup_eq_some_iff
    hip).mpr ⟨hi, hslot⟩
  refine .inl ⟨?_, history, ?_, hinv⟩
  · simp only [IpHistory.Allows, hlookup]
    exact fun j hj => (SlotBucket.firstFit_first hfit j hj).1
  · rw [IpHistory.step, hinsert]
    rfl

/-- The first fit is a vacant slot: the address must not be behind it. -/
theorem IpHistory.Inv.insert_vacant (hinv : history.Inv crc) (hip : ip ≠ 0)
    {i : Nat} (hfit : firstFit 0 maxAclIpHashBucketLen
      (history.acl.ips side (crc ip)) ip = some i)
    (hvacant : history.acl.ips side (crc ip) i = 0)
    (hinsert : mppInsertIp side crc history.acl tagid ip =
      insertAt side crc history.acl tagid ip i) :
    history.Decided crc (.insert side tagid ip) := by
  obtain ⟨hi, _⟩ := SlotBucket.firstFit_some hfit
  have hstep := IpHistory.step_insertAt hinsert
  cases hlookup : lookup maxAclIpHashBucketLen
      (history.acl.ips side (crc ip)) ip with
  | none =>
      have habsent := SlotBucket.lookup_eq_none_iff.mp hlookup
      have hallows : history.Allows crc (.insert side tagid ip) ↔
          tagid < maxAclIpNum := by
        simp only [IpHistory.Allows, hlookup]
        exact and_iff_left ⟨i, hi, hvacant⟩
      by_cases htagid : tagid < maxAclIpNum
      · rw [if_pos htagid] at hstep
        refine .inl ⟨hallows.mpr htagid, _, hstep,
          hinv.fill hip htagid hi hvacant habsent ?_ ?_⟩
        · simp only [IpHistory.noteInsert, Function.update_self]
        · intro side' other hother hne
          have hvictim : history.victim crc side ip = 0 := by
            rw [IpHistory.victim, hfit, Option.getD_some, hvacant]
          rw [IpHistory.noteInsert, hvictim]
          by_cases hside : side' = side
          · subst hside
            rw [Function.update_self,
              Function.update_of_ne fun h => hne ⟨rfl, h⟩,
              Function.update_of_ne hother]
          · rw [Function.update_of_ne hside]
      · rw [if_neg htagid] at hstep
        refine .inr ⟨fun h => htagid (hallows.mp h), fun next hnext => ?_⟩
        rw [hstep] at hnext
        cases hnext
  | some j =>
      obtain ⟨hj, hslot⟩ := SlotBucket.lookup_some hlookup
      refine .inr ⟨fun hallows => ?_, fun next hnext hcorrect => ?_⟩
      · simp only [IpHistory.Allows, hlookup] at hallows
        rcases Nat.lt_trichotomy j i with hlt | rfl | hlt
        · exact (SlotBucket.firstFit_first hfit j hlt).2 hslot
        · exact hip (hslot.symm.trans hvacant)
        · exact hallows i hlt hvacant
      · rw [hstep] at hnext
        split at hnext
        case isFalse => cases hnext
        case isTrue =>
          cases hnext
          have honce := hcorrect.once side (crc ip)
          rw [write_ips_self] at honce
          exact (SlotBucket.distinct_fill_iff hi hvacant hip
            (hinv.correct.once side _)).mp honce j hj hslot

/-- The bucket is full of other addresses: its counter gets past its size. -/
theorem IpHistory.Inv.insert_full (hinv : history.Inv crc)
    (hfit : firstFit 0 maxAclIpHashBucketLen
      (history.acl.ips side (crc ip)) ip = none)
    {i : Nat} (hinsert : mppInsertIp side crc history.acl tagid ip =
      insertAt side crc history.acl tagid ip i) :
    history.Decided crc (.insert side tagid ip) := by
  have hfull := SlotBucket.firstFit_eq_none_iff.mp hfit
  have hlookup := SlotBucket.lookup_eq_none_iff.mpr fun j hj => (hfull j hj).2
  have hstep := IpHistory.step_insertAt hinsert
  refine .inr ⟨fun hallows => ?_, fun next hnext hcorrect => ?_⟩
  · simp only [IpHistory.Allows, hlookup] at hallows
    obtain ⟨_, j, hj, hvacant⟩ := hallows
    exact (hfull j hj).1 hvacant
  · rw [hstep] at hnext
    split at hnext
    case isFalse => cases hnext
    case isTrue =>
      cases hnext
      have hcounted := hcorrect.counted side (crc ip)
      have hle := hcounted.trans_le SlotBucket.occupied_le
      rw [write_cnt_self, hinv.correct.counted, inc32_occupied,
        SlotBucket.occupied_of_full fun j hj => (hfull j hj).1] at hle
      exact Nat.not_succ_le_self _ hle

theorem IpHistory.Inv.insert_decided (hinv : history.Inv crc) (hip : ip ≠ 0) :
    history.Decided crc (.insert side tagid ip) := by
  rcases @mppInsertIp_cases crc side tagid ip history.acl with
    ⟨i, hfit, hslot, hinsert⟩ | ⟨i, hfit, hvacant, hinsert⟩ | ⟨hfit, hinsert⟩
  · exact hinv.insert_present hip hfit hslot hinsert
  · exact hinv.insert_vacant hip hfit hvacant hinsert
  · exact hinv.insert_full hfit hinsert

end Insert

section Delete

variable {crc : Nat → Fin maxAclIpNum} {history : IpHistory} {tagid : Nat}

theorem IpSide.flag_inj {side side' : IpSide} (h : side.flag = side'.flag) :
    side = side' := by
  cases side with
  | src =>
      cases side' with
      | src => rfl
      | dest => cases h
  | dest =>
      cases side' with
      | src => cases h
      | dest => rfl

theorem IpHistory.Correct.found_iff (h : history.Correct crc) {side : IpSide}
    {ip : Nat} (hip : ip ≠ 0) :
    mppCmpIp side crc history.acl ip = some (tagid + mppAclIpStart) ↔
      history.known side ip = some tagid := by
  rw [h.found side ip hip, Option.map_eq_some_iff]
  constructor
  · rintro ⟨other, hother, heq⟩
    rw [hother, Nat.add_right_cancel heq]
  · exact fun hknown => ⟨tagid, hknown, rfl⟩

/-- What a deletion does: nothing, since the tag has no address; or it clears
the slot of the address. -/
theorem IpHistory.Inv.del_cases (hinv : history.Inv crc) :
    (history.acl.tagip tagid = 0 ∧
      mppDelIp crc history.acl tagid = history.acl) ∨
    ∃ side i, history.acl.tagip tagid ≠ 0 ∧
      history.acl.ipflag tagid = side.flag ∧ i < maxAclIpHashBucketLen ∧
      history.acl.ips side (crc (history.acl.tagip tagid)) i =
        history.acl.tagip tagid ∧
      mppDelIp crc history.acl tagid =
        history.acl.write side (crc (history.acl.tagip tagid)) i ⟨0, 0⟩
          (dec32 (history.acl.cnt side (crc (history.acl.tagip tagid))))
          tagid 0 := by
  by_cases hzero : history.acl.tagip tagid = 0
  · refine .inl ⟨hzero, ?_⟩
    rw [mppDelIp, if_pos hzero, ite_self]
  · obtain ⟨side, hflag, hknown⟩ := hinv.owner tagid hzero
    have htagid := hinv.tags side _ tagid hzero hknown
    have hcmp := (hinv.correct.found_iff hzero).mpr hknown
    rw [mppCmpIp, Option.map_eq_some_iff] at hcmp
    obtain ⟨i, hlookup, _⟩ := hcmp
    obtain ⟨hi, hslot⟩ := SlotBucket.lookup_some hlookup
    refine .inr ⟨side, i, hzero, hflag, hi, hslot, ?_⟩
    rw [mppDelIp, if_neg (Nat.not_le.mpr htagid), if_neg hzero, hflag]
    cases side with
    | src => simp only [if_true, mppDelSrcIp, mppDelSideIp, hlookup]
    | dest =>
        rw [if_neg (by decide), if_pos rfl, mppDelDestIp, mppDelSideIp, hlookup]

/-- What a deletion leaves: one address less, or all as it was. -/
structure IpHistory.Cleared (crc : Nat → Fin maxAclIpNum)
    (history : IpHistory) (tagid : Nat) (acl : MppAclIp) : Prop where
  once : ∀ side index, Distinct 0 maxAclIpHashBucketLen (acl.ips side index)
  counted : ∀ side index, acl.cnt side index =
    occupied 0 maxAclIpHashBucketLen (acl.ips side index)
  placed : ∀ side index, ∀ i < maxAclIpHashBucketLen,
    acl.ips side index i ≠ 0 → (crc (acl.ips side index i)).val = index
  cmp : ∀ side ip, ip ≠ 0 → mppCmpIp side crc acl ip =
    if history.acl.tagip tagid = ip ∧ history.acl.ipflag tagid = side.flag
      then none
    else mppCmpIp side crc history.acl ip
  free : acl.tagip tagid = 0
  others : ∀ other, other ≠ tagid →
    acl.tagip other = history.acl.tagip other ∧
      acl.ipflag other = history.acl.ipflag other

theorem IpHistory.Inv.cleared (hinv : history.Inv crc) :
    history.Cleared crc tagid (mppDelIp crc history.acl tagid) := by
  have honce := hinv.correct.once
  rcases hinv.del_cases with ⟨hzero, hdel⟩ |
    ⟨side, i, hne, hflag, hi, hslot, hdel⟩
  · rw [hdel]
    refine ⟨honce, hinv.correct.counted, hinv.placed, ?_, hzero,
      fun _ _ => ⟨rfl, rfl⟩⟩
    intro side ip hip
    rw [if_neg fun h => hip (h.1.symm.trans hzero)]
  · rw [hdel]
    have hsound := forall_buckets_of_write history.acl side
      (crc (history.acl.tagip tagid)) i ⟨0, 0⟩
      (dec32 (history.acl.cnt side (crc (history.acl.tagip tagid)))) tagid 0
      hinv.bucketSound
      ((hinv.bucketSound side _).clear hi (ne_of_eq_of_ne hslot hne))
    have honce' := fun side' index' => (hsound side' index').once
    refine ⟨honce', fun side' index' => (hsound side' index').counted,
      fun side' index' => (hsound side' index').placed, ?_, ?_, ?_⟩
    · intro side' ip hip
      by_cases hsame : history.acl.tagip tagid = ip ∧
          history.acl.ipflag tagid = side'.flag
      · rw [if_pos hsame]
        obtain ⟨rfl, hflag'⟩ := hsame
        obtain rfl := IpSide.flag_inj (hflag.symm.trans hflag')
        refine mppCmpIp_eq_none_iff.mpr fun j hj => ?_
        rw [write_ips_self]
        by_cases hji : j = i
        · rw [hji, Function.update_self]
          exact hip.symm
        · rw [Function.update_of_ne hji]
          intro hslot'
          exact hji (honce side _ j hj i hi (hslot'.trans hslot.symm)
            (ne_of_eq_of_ne hslot' hne))
      · rw [if_neg hsame]
        refine mppCmpIp_write_of_ne honce honce' (.inl rfl) (.inr hslot) hip ?_
        rintro ⟨rfl, rfl⟩
        exact hsame ⟨rfl, hflag⟩
    · exact Function.update_self ..
    · exact fun other hother => ⟨Function.update_of_ne hother ..,
        Function.update_of_ne hother ..⟩

theorem IpHistory.Inv.del_decided (hinv : history.Inv crc) :
    history.Decided crc (.del tagid) := by
  have hcleared : history.Cleared crc tagid _ := hinv.cleared
  by_cases hallows : history.Allows crc (.del tagid)
  · refine .inl ⟨hallows, _, rfl, ⟨hcleared.once, hcleared.counted, ?_⟩,
      hcleared.placed, ?_, ?_⟩
    · intro side ip hip
      simp only [IpHistory.noteDel]
      rw [hcleared.cmp side ip hip]
      by_cases hsame : history.acl.tagip tagid = ip ∧
          history.acl.ipflag tagid = side.flag
      · obtain ⟨rfl, hflag⟩ := hsame
        obtain ⟨side', hflag', hknown⟩ := hinv.owner tagid hip
        obtain rfl := IpSide.flag_inj (hflag.symm.trans hflag')
        rw [if_pos ⟨rfl, hflag⟩, if_pos hknown]
        rfl
      · rw [if_neg hsame, if_neg]
        · exact hinv.correct.found side ip hip
        · intro hknown
          exact hsame (hallows side ip hip
            ((hinv.correct.found_iff hip).mpr hknown))
    · intro side ip tagid' hip hknown
      simp only [IpHistory.noteDel] at hknown
      split at hknown
      case isTrue => cases hknown
      case isFalse => exact hinv.tags side ip tagid' hip hknown
    · intro tagid' hne
      have hother : tagid' ≠ tagid := by
        rintro rfl
        exact hne hcleared.free
      obtain ⟨htagip, hipflag⟩ := hcleared.others tagid' hother
      simp only [htagip, hipflag] at hne ⊢
      obtain ⟨side, hflag, hknown⟩ := hinv.owner tagid' hne
      refine ⟨side, hflag, ?_⟩
      rw [IpHistory.noteDel, if_neg, hknown]
      rw [hknown, Option.some.injEq]
      exact hother
  · refine .inr ⟨hallows, fun next hnext hcorrect => hallows ?_⟩
    cases hnext
    intro side ip hip hcmp
    by_contra hsame
    have hfound := hcorrect.found side ip hip
    simp only [IpHistory.noteDel] at hfound
    rw [if_pos ((hinv.correct.found_iff hip).mp hcmp),
      hcleared.cmp side ip hip, if_neg hsame, hcmp] at hfound
    cases hfound

end Delete

theorem IpHistory.init_inv (crc : Nat → Fin maxAclIpNum) :
    IpHistory.init.Inv crc := by
  refine ⟨⟨?_, ?_, ?_⟩, ?_, ?_, ?_⟩
  · exact fun _ _ _ _ _ _ _ hne => absurd rfl hne
  · intro side index
    exact (Finset.card_eq_zero.mpr (Finset.filter_eq_empty_iff.mpr
      fun _ _ h => h rfl)).symm
  · intro side ip hip
    exact mppCmpIp_eq_none_iff.mpr fun _ _ => hip.symm
  · exact fun _ _ _ _ hne => absurd rfl hne
  · intro _ _ _ _ h
    cases h
  · exact fun _ hne => absurd rfl hne

/-- In every run the tables stay correct exactly as long as each call is
allowed. -/
theorem ipRun_correct_iff (crc : Nat → Fin maxAclIpNum) (calls : List IpCall)
    (hcalls : ∀ call ∈ calls, call.NonZero) :
    GuardedRuns.Always (IpHistory.step crc) (IpHistory.Correct crc)
        IpHistory.init calls ↔
      GuardedRuns.Each (IpHistory.step crc) (IpHistory.Allows crc)
        IpHistory.init calls := by
  have hdecided : ∀ history : IpHistory, ∀ call : IpCall, call.NonZero →
      history.Inv crc → history.Decided crc call := by
    intro history call hcall hinv
    cases call with
    | insert side tagid ip => exact hinv.insert_decided hcall.2
    | del tagid => exact hinv.del_decided
  refine GuardedRuns.always_iff_each (IpHistory.Inv crc) IpCall.NonZero
    (fun _ hinv => hinv.correct) ?_ ?_ (IpHistory.init_inv crc) hcalls
  · intro history call hcall hinv
    rcases hdecided history call hcall hinv with ⟨hallows, next, hnext, hinv'⟩ |
      ⟨hnot, hspoilt⟩
    · exact iff_of_true ⟨next, hnext, hinv'.correct⟩ hallows
    · refine iff_of_false ?_ hnot
      rintro ⟨next, hnext, hcorrect⟩
      exact hspoilt next hnext hcorrect
  · intro history call next hcall hinv hallows hnext
    rcases hdecided history call hcall hinv with ⟨_, next', hnext', hinv'⟩ |
      ⟨hnot, _⟩
    · rw [hnext, Option.some.injEq] at hnext'
      exact hnext' ▸ hinv'
    · exact absurd hallows hnot

/-- A hash that puts every address into the first bucket. -/
def oneBucket : Nat → Fin maxAclIpNum := fun _ => ⟨0, by decide⟩

/-- An address is inserted, and deleted by its tag. -/
theorem ipRun_correct_insertDel :
    GuardedRuns.Always (IpHistory.step oneBucket)
        (IpHistory.Correct oneBucket) IpHistory.init
        [.insert .src 1 10, .del 1] ↔
      GuardedRuns.Each (IpHistory.step oneBucket)
        (IpHistory.Allows oneBucket) IpHistory.init
        [.insert .src 1 10, .del 1] := by
  refine ipRun_correct_iff oneBucket _ ?_
  simp [IpCall.NonZero]

/-- The second address of a bucket is inserted again after the first has been
deleted, and is in two slots then. -/
theorem reinserted_twice :
    ¬ ∀ (crc : Nat → Fin maxAclIpNum) (calls : List IpCall),
      (∀ call ∈ calls, call.NonZero) →
      GuardedRuns.Always (IpHistory.step crc) (IpHistory.Correct crc)
        IpHistory.init calls := by
  intro h
  obtain ⟨final, hfinal, hcorrect⟩ := (h oneBucket
    [.insert .src 1 10, .insert .src 2 20, .del 1, .insert .src 3 20]
    (by simp [IpCall.NonZero])).last
  have hslots : ([IpCall.insert .src 1 10, .insert .src 2 20, .del 1,
      .insert .src 3 20].foldlM (IpHistory.step oneBucket)
      IpHistory.init).map (fun history =>
        (history.acl.ips .src 0 0, history.acl.ips .src 0 1)) =
      some (20, 20) := by
    decide
  rw [hfinal, Option.map_some, Option.some.injEq, Prod.mk.injEq] at hslots
  obtain ⟨hfirst, hsecond⟩ := hslots
  have hsame := hcorrect.once .src 0 0 (by decide) 1 (by decide)
    (hfirst.trans hsecond.symm) (by rw [hfirst]; decide)
  cases hsame

end Barley
