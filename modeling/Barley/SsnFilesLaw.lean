/-
What the text files hold.  However the blocks of different sessions follow each
other, the file of a session is the dump of the bytes of its blocks, without a
break, as long as there are not more sessions than the table has entries.
-/
import Barley.SsnFiles
import Mathlib.Data.List.Dedup
import Mathlib.Data.List.Perm.Subperm

namespace Barley

/-- A block of a session: whose it is and its bytes. -/
structure SsnRecord where
  key : SsnFileKey
  bytes : List UInt8

/-- The host finds the record in the block, and can open its file. -/
structure SsnFileBlock.Shows (block : SsnFileBlock) (record : SsnRecord) :
    Prop where
  opens : block.opens = true
  key_eq : (prSsnDmaHeadGet block.mem block.dmaPkt).key = record.key
  totalPaylen_eq : (prSsnDmaHeadGet block.mem block.dmaPkt).totalPaylen.toNat =
    record.bytes.length
  bytes_eq : frcSsnBlockData block.mem block.dmaPkt sizeofDmaHdr
    record.bytes.length = record.bytes

/-- The bytes of a session, in the order of its blocks. -/
def streamOf (key : SsnFileKey) (records : List SsnRecord) : List UInt8 :=
  (records.filter fun record => record.key = key).flatMap SsnRecord.bytes

/-- How many sessions there are. -/
def sessionCount (records : List SsnRecord) : Nat :=
  (records.map SsnRecord.key).dedup.length

/-- The table has one entry for each session, which knows how long the stream
is up to multiples of `2 ^ 16`; the files hold the streams. -/
structure FilesInv (recvDir : List Char) (before : List Char → List Char)
    (files : SsnFiles) (records : List SsnRecord) : Prop where
  nodup : (files.tupleBlock.map FrcTupleBlock.key).Nodup
  seen : ∀ key, key ∈ files.tupleBlock.map FrcTupleBlock.key ↔
    key ∈ records.map SsnRecord.key
  blockLen_eq : ∀ entry ∈ files.tupleBlock,
    entry.blockLen = .ofNat (streamOf entry.key records).length
  text_eq : ∀ key, files.text (ssnFileName recvDir key) =
    before (ssnFileName recvDir key) ++
      HexDump.dump 32 0 (streamOf key records)
  others : ∀ name, (∀ key, name ≠ ssnFileName recvDir key) →
    files.text name = before name

section Streams

variable {key : SsnFileKey} {records : List SsnRecord} {record : SsnRecord}

theorem streamOf_own (records : List SsnRecord) (record : SsnRecord) :
    streamOf record.key (records ++ [record]) =
      streamOf record.key records ++ record.bytes := by
  simp [streamOf, List.filter_append]

theorem streamOf_other (records : List SsnRecord) (h : record.key ≠ key) :
    streamOf key (records ++ [record]) = streamOf key records := by
  simp [streamOf, List.filter_append, h]

theorem streamOf_unseen (h : key ∉ records.map SsnRecord.key) :
    streamOf key records = [] := by
  have hnone : records.filter (fun record => record.key = key) = [] := by
    rw [List.filter_eq_nil_iff]
    intro record hrecord
    rw [decide_eq_true_eq]
    rintro rfl
    exact h (List.mem_map_of_mem hrecord)
  rw [streamOf, hnone, List.flatMap_nil]

end Streams

section Match

variable {tupleBlock : List FrcTupleBlock} {dmaHdr : FrcDmaHdrT}

theorem fiveTupleMatch_none
    (h : dmaHdr.key ∉ tupleBlock.map FrcTupleBlock.key) :
    fiveTupleMatch dmaHdr tupleBlock = none := by
  induction tupleBlock with
  | nil => rfl
  | cons entry rest ih =>
      rw [List.map_cons, List.mem_cons, not_or] at h
      obtain ⟨hne, hrest⟩ := h
      rw [fiveTupleMatch, if_neg (fun heq => hne heq.symm), ih hrest]
      rfl

/-- The entry of a session that has been seen is updated in place. -/
theorem fiveTupleMatch_some
    (h : dmaHdr.key ∈ tupleBlock.map FrcTupleBlock.key) :
    ∃ front entry back, tupleBlock = front ++ entry :: back ∧
      entry.key = dmaHdr.key ∧
      fiveTupleMatch dmaHdr tupleBlock = some (
        front ++ { entry with
          blockLen := entry.blockLen + dmaHdr.totalPaylen
          blockNum := entry.blockNum + 1 } :: back,
        entry.blockLen + dmaHdr.totalPaylen) := by
  induction tupleBlock with
  | nil => cases h
  | cons entry rest ih =>
      by_cases heq : entry.key = dmaHdr.key
      · exact ⟨[], entry, rest, rfl, heq, if_pos heq⟩
      · have hrest : dmaHdr.key ∈ rest.map FrcTupleBlock.key :=
          (List.mem_cons.mp h).resolve_left fun hfirst => heq hfirst.symm
        obtain ⟨front, found, back, hsplit, hkey, hmatch⟩ := ih hrest
        refine ⟨entry :: front, found, back, ?_, hkey, ?_⟩
        · rw [hsplit]
          rfl
        · rw [fiveTupleMatch, if_neg heq, hmatch]
          rfl

end Match

section Step

variable {recvDir : List Char} {before : List Char → List Char}
  {files : SsnFiles} {records : List SsnRecord} {block : SsnFileBlock}
  {record : SsnRecord}

/-- What is appended to a file goes on where the file has stopped. -/
theorem prSsnPktFile_text (recvDir : List Char) (hshows : block.Shows record)
    (text : List Char → List Char) {blockLen : UInt16}
    (hlen : blockLen = .ofNat (streamOf record.key records).length +
      (prSsnDmaHeadGet block.mem block.dmaPkt).totalPaylen) :
    prSsnPktFile recvDir block.mem block.dmaPkt
        (prSsnDmaHeadGet block.mem block.dmaPkt) blockLen block.opens text =
      Function.update text (ssnFileName recvDir record.key)
        (text (ssnFileName recvDir record.key) ++
          HexDump.dump 32 (streamOf record.key records).length
            record.bytes) := by
  have hplace : (UInt16.ofNat (streamOf record.key records).length).toNat % 32 =
      (streamOf record.key records).length % 32 := by
    rw [UInt16.toNat_ofNat']
    omega
  have htext := ssnByteText_dump
    (.ofNat (streamOf record.key records).length) record.bytes 0
  rw [Nat.add_zero, HexDump.dump_mod 32 hplace] at htext
  rw [prSsnPktFile, hshows.opens, hshows.key_eq, hshows.totalPaylen_eq,
    hshows.bytes_eq, hlen, UInt16.add_sub_cancel]
  exact congrArg (fun dump => Function.update text _ (text _ ++ dump)) htext

/-- The files after a block whose session has an entry for the lengths. -/
theorem FilesInv.append (h : FilesInv recvDir before files records)
    {tupleBlock : List FrcTupleBlock}
    (hnodup : (tupleBlock.map FrcTupleBlock.key).Nodup)
    (hseen : ∀ key, key ∈ tupleBlock.map FrcTupleBlock.key ↔
      key ∈ (records ++ [record]).map SsnRecord.key)
    (hlen : ∀ entry ∈ tupleBlock,
      entry.blockLen = .ofNat (streamOf entry.key (records ++ [record])).length) :
    FilesInv recvDir before {
        tupleBlock
        text := Function.update files.text (ssnFileName recvDir record.key)
          (files.text (ssnFileName recvDir record.key) ++
            HexDump.dump 32 (streamOf record.key records).length
              record.bytes) }
      (records ++ [record]) where
  nodup := hnodup
  seen := hseen
  blockLen_eq := hlen
  text_eq key := by
    by_cases heq : record.key = key
    · subst heq
      have hdump := HexDump.dump_append 32 0 (streamOf record.key records)
        record.bytes
      rw [Nat.zero_add] at hdump
      dsimp only
      rw [Function.update_self, h.text_eq, streamOf_own, hdump,
        List.append_assoc]
    · have hne : ssnFileName recvDir key ≠ ssnFileName recvDir record.key :=
        fun hname => heq (ssnFileName_injective recvDir hname).symm
      dsimp only
      rw [Function.update_of_ne hne, h.text_eq, streamOf_other records heq]
  others name hname := by
    dsimp only
    rw [Function.update_of_ne (hname record.key)]
    exact h.others name hname

/-- The length of a stream with the block at its end. -/
theorem SsnFileBlock.Shows.length_append (hshows : block.Shows record) :
    UInt16.ofNat (streamOf record.key records).length +
        (prSsnDmaHeadGet block.mem block.dmaPkt).totalPaylen =
      .ofNat (streamOf record.key (records ++ [record])).length := by
  rw [streamOf_own, List.length_append, UInt16.ofNat_add,
    ← hshows.totalPaylen_eq, UInt16.ofNat_toNat]

/-- A block of a session with an entry. -/
theorem FilesInv.seenBlock (h : FilesInv recvDir before files records)
    (hshows : block.Shows record)
    (hseen : record.key ∈ records.map SsnRecord.key) :
    ∃ next, prSsnDataFile recvDir files block = some next ∧
      FilesInv recvDir before next (records ++ [record]) := by
  have hkey := hshows.key_eq
  have hentry := (h.seen record.key).mpr hseen
  rw [← hkey] at hentry
  obtain ⟨front, entry, back, hsplit, hentryKey, hmatch⟩ :=
    fiveTupleMatch_some hentry
  rw [hkey] at hentryKey
  have hold : entry.blockLen = .ofNat (streamOf record.key records).length := by
    rw [← hentryKey]
    refine h.blockLen_eq entry ?_
    rw [hsplit]
    exact List.mem_append_right _ List.mem_cons_self
  have htext := prSsnPktFile_text recvDir hshows files.text
    (congrArg (· + (prSsnDmaHeadGet block.mem block.dmaPkt).totalPaylen) hold)
  have hkeys : ∀ num len,
      (front ++ ⟨entry.key, num, len⟩ :: back).map FrcTupleBlock.key =
        files.tupleBlock.map FrcTupleBlock.key := by
    intro num len
    rw [hsplit, List.map_append, List.map_append, List.map_cons, List.map_cons]
  have hnodup := h.nodup
  rw [hsplit, List.map_append, List.map_cons, hentryKey] at hnodup
  obtain ⟨-, hback, hfront⟩ := List.nodup_append.mp hnodup
  rw [prSsnDataFile, fiveTupleMatchProcess, hmatch]
  refine ⟨_, rfl, ?_⟩
  rw [htext]
  refine h.append ?_ ?_ ?_
  · rw [hkeys]
    exact h.nodup
  · intro key
    rw [hkeys, h.seen, List.map_append, List.mem_append]
    constructor
    · exact .inl
    · rintro (hold | hnew)
      · exact hold
      · rw [List.mem_singleton.mp hnew]
        exact hseen
  · intro other hother
    -- the other entries are of other sessions
    have hothers : other.key ≠ record.key → other ∈ files.tupleBlock →
        other.blockLen =
          .ofNat (streamOf other.key (records ++ [record])).length := by
      intro hne hmem
      rw [streamOf_other records (Ne.symm hne)]
      exact h.blockLen_eq other hmem
    rcases List.mem_append.mp hother with hmem | hmem
    · refine hothers ?_ (hsplit ▸ List.mem_append_left _ hmem)
      exact hfront _ (List.mem_map_of_mem hmem) _ List.mem_cons_self
    · rcases List.mem_cons.mp hmem with rfl | hmem
      · dsimp only
        rw [hentryKey, hold]
        exact hshows.length_append
      · refine hothers ?_ (hsplit ▸ List.mem_append_right _
          (List.mem_cons_of_mem _ hmem))
        intro heq
        exact (List.nodup_cons.mp hback).1
          (heq ▸ List.mem_map_of_mem hmem)

/-- The first block of a session. -/
theorem FilesInv.newBlock (h : FilesInv recvDir before files records)
    (hshows : block.Shows record)
    (hnew : record.key ∉ records.map SsnRecord.key) :
    (ssnBlockMax ≤ files.tupleBlock.length →
      prSsnDataFile recvDir files block = none) ∧
    (files.tupleBlock.length < ssnBlockMax →
      ∃ next, prSsnDataFile recvDir files block = some next ∧
        FilesInv recvDir before next (records ++ [record])) := by
  have hkey := hshows.key_eq
  have hentry : record.key ∉ files.tupleBlock.map FrcTupleBlock.key :=
    fun hmem => hnew ((h.seen record.key).mp hmem)
  have hmatch := fiveTupleMatch_none (hkey ▸ hentry)
  have hempty := streamOf_unseen hnew
  rw [prSsnDataFile, fiveTupleMatchProcess, hmatch]
  constructor
  · intro hfull
    rw [fiveTupleCreate, if_pos hfull]
  · intro hroom
    have hlen : (prSsnDmaHeadGet block.mem block.dmaPkt).totalPaylen =
        .ofNat (streamOf record.key records).length +
          (prSsnDmaHeadGet block.mem block.dmaPkt).totalPaylen := by
      rw [hempty]
      exact (UInt16.zero_add _).symm
    have htext := prSsnPktFile_text recvDir hshows files.text hlen
    rw [fiveTupleCreate, if_neg (Nat.not_le.mpr hroom)]
    refine ⟨_, rfl, ?_⟩
    rw [htext]
    refine h.append ?_ ?_ ?_
    · rw [List.map_append, List.map_singleton, hkey]
      exact (List.nodup_append_comm.mp
        (List.nodup_cons.mpr ⟨hentry, h.nodup⟩ : ([record.key] ++ _).Nodup))
    · intro key
      rw [List.map_append, List.map_append, List.mem_append, List.mem_append,
        h.seen, List.map_singleton, List.map_singleton, hkey]
    · intro other hother
      rcases List.mem_append.mp hother with hmem | hmem
      · have hne : record.key ≠ other.key := by
          intro heq
          exact hentry (heq ▸ List.mem_map_of_mem hmem)
        rw [streamOf_other records hne]
        exact h.blockLen_eq other hmem
      · rw [List.mem_singleton.mp hmem]
        dsimp only
        rw [hkey, ← hshows.length_append]
        exact hlen

theorem FilesInv.length_eq (h : FilesInv recvDir before files records) :
    files.tupleBlock.length = sessionCount records := by
  have hperm := (List.perm_ext_iff_of_nodup h.nodup (List.nodup_dedup _)).mpr
    fun key => (h.seen key).trans List.mem_dedup.symm
  rw [sessionCount, ← hperm.length_eq, List.length_map]

end Step

section Sessions

variable {first rest : List SsnRecord} {record : SsnRecord}

theorem sessionCount_le (h : ∀ key, key ∈ first.map SsnRecord.key →
    key ∈ rest.map SsnRecord.key) : sessionCount first ≤ sessionCount rest := by
  refine (List.subperm_of_subset (List.nodup_dedup _) ?_).length_le
  intro key hkey
  exact List.mem_dedup.mpr (h key (List.mem_dedup.mp hkey))

theorem sessionCount_new (h : record.key ∉ first.map SsnRecord.key) :
    sessionCount (first ++ [record]) = sessionCount first + 1 := by
  have hnodup : (record.key :: (first.map SsnRecord.key).dedup).Nodup :=
    List.nodup_cons.mpr ⟨fun hmem => h (List.mem_dedup.mp hmem),
      List.nodup_dedup _⟩
  have hperm := (List.perm_ext_iff_of_nodup (List.nodup_dedup
    ((first ++ [record]).map SsnRecord.key)) hnodup).mpr fun key => by
      simp [or_comm]
  exact hperm.length_eq

end Sessions

section Runs

variable {recvDir : List Char} {before : List Char → List Char}
  {files : SsnFiles} {blocks : List SsnFileBlock}
  {records read : List SsnRecord}

/-- Blocks are appended one after the other while the table has room. -/
theorem FilesInv.run (h : FilesInv recvDir before files read)
    (hcount : sessionCount read ≤ ssnBlockMax)
    (hblocks : List.Forall₂ SsnFileBlock.Shows blocks records) :
    (sessionCount (read ++ records) ≤ ssnBlockMax →
      ∃ last, prSsnData recvDir files blocks = some last ∧
        FilesInv recvDir before last (read ++ records)) ∧
    (ssnBlockMax < sessionCount (read ++ records) →
      prSsnData recvDir files blocks = none) := by
  induction hblocks generalizing files read with
  | nil =>
      rw [List.append_nil]
      exact ⟨fun _ => ⟨files, rfl, h⟩,
        fun hlt => absurd hcount (Nat.not_le.mpr hlt)⟩
  | @cons block record blocks records hshows hrest ih =>
      have hsplit : read ++ record :: records = (read ++ [record]) ++ records :=
        List.append_cons ..
      have hmono : sessionCount (read ++ [record]) ≤
          sessionCount ((read ++ [record]) ++ records) := by
        refine sessionCount_le fun key hkey => ?_
        rw [List.map_append]
        exact List.mem_append_left _ hkey
      -- after a block that has been appended, the others follow
      have hgoes : ∀ next, prSsnDataFile recvDir files block = some next →
          prSsnData recvDir files (block :: blocks) =
            prSsnData recvDir next blocks := by
        intro next hnext
        rw [prSsnData, hnext]
      rw [hsplit]
      by_cases hseen : record.key ∈ read.map SsnRecord.key
      · obtain ⟨next, hnext, hinv⟩ := h.seenBlock hshows hseen
        rw [hgoes next hnext]
        refine ih hinv (Nat.le_trans (sessionCount_le fun key hkey => ?_)
          hcount)
        rw [List.map_append, List.mem_append] at hkey
        rcases hkey with hold | hnew
        · exact hold
        · rw [List.mem_singleton.mp hnew]
          exact hseen
      · obtain ⟨hfull, hroom⟩ := h.newBlock hshows hseen
        have hnew := sessionCount_new hseen
        rw [h.length_eq] at hfull hroom
        by_cases hlt : sessionCount read < ssnBlockMax
        · obtain ⟨next, hnext, hinv⟩ := hroom hlt
          rw [hgoes next hnext]
          exact ih hinv (by omega)
        · have hnone := hfull (Nat.not_lt.mp hlt)
          refine ⟨fun hle => absurd hle (by omega), fun _ => ?_⟩
          rw [prSsnData, hnone]

theorem FilesInv.start (recvDir : List Char)
    (before : List Char → List Char) :
    FilesInv recvDir before ⟨[], before⟩ [] where
  nodup := List.nodup_nil
  seen _ := Iff.rfl
  blockLen_eq _ hentry := nomatch hentry
  text_eq _ := (List.append_nil _).symm
  others _ _ := rfl

/-- A block of a session at address 0: its header and three bytes. -/
def smallBlock (sport : UInt16) : SsnFileBlock where
  dmaPkt := 0
  mem := Scatter.run (fun _ => 0)
    [⟨frcDmaOffset, frcDmaHdrT.image { (default : FrcDmaHdrT) with
        sport, totalPaylen := 3, pktNum := 1 }⟩,
      ⟨frcDmaOffset + sizeofDmaHdr, [0x47, 0x45, 0x54]⟩]
  opens := true

end Runs

end Barley
