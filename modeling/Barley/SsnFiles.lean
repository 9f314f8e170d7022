/-
The text files of sessions.  Each block is appended to the file of its session
as a hexadecimal dump that goes on where the one before it has stopped; a table
of the sessions seen so far tells at which place of a line that is.
-/
import Barley.HexDump
import Barley.SsnDelivery

namespace Barley

/-- The fields by which blocks of one session are recognised. -/
structure SsnFileKey where
  sip : UInt32
  dip : UInt32
  sp : UInt16
  dp : UInt16
deriving DecidableEq, Repr

def FrcDmaHdrT.key (dmaHdr : FrcDmaHdrT) : SsnFileKey :=
  ⟨dmaHdr.sip, dmaHdr.dip, dmaHdr.sport, dmaHdr.dport⟩

/-- `frc_tuple_block_t`. -/
structure FrcTupleBlock where
  key : SsnFileKey
  blockNum : UInt16
  blockLen : UInt16
deriving DecidableEq, Repr

/-- The size of the array `ssn_block`. -/
def ssnBlockMax : Nat := 100

section Table

/-- `five_tuple_create` in `frc_tuple_block_use_t`, given by its valid entries.
There is no result when the entry would lie behind the array. -/
def fiveTupleCreate (tupleBlock : List FrcTupleBlock) (dmaHdr : FrcDmaHdrT) :
    Option (List FrcTupleBlock × UInt16) :=
  if ssnBlockMax ≤ tupleBlock.length then none
  else some (tupleBlock ++ [⟨dmaHdr.key, 1, dmaHdr.totalPaylen⟩],
    dmaHdr.totalPaylen)

/-- The entries with the first match updated, and its length. -/
def fiveTupleMatch (dmaHdr : FrcDmaHdrT) :
    List FrcTupleBlock → Option (List FrcTupleBlock × UInt16)
  | [] => none
  | entry :: rest =>
      if entry.key = dmaHdr.key then
        let blockLen := entry.blockLen + dmaHdr.totalPaylen
        some ({ entry with blockLen, blockNum := entry.blockNum + 1 } :: rest,
          blockLen)
      else (fiveTupleMatch dmaHdr rest).map fun (rest, blockLen) =>
        (entry :: rest, blockLen)

/-- `five_tuple_match_process`. -/
def fiveTupleMatchProcess (tupleBlock : List FrcTupleBlock)
    (dmaHdr : FrcDmaHdrT) : Option (List FrcTupleBlock × UInt16) :=
  match fiveTupleMatch dmaHdr tupleBlock with
  | some matched => some matched
  | none => fiveTupleCreate tupleBlock dmaHdr

end Table

section Files

/-- The name that `sprintf` makes for a session. -/
def ssnFileName (recvDir : List Char) (key : SsnFileKey) : List Char :=
  recvDir ++ '/' :: HexText.print key.sip.toNat ++
    '_' :: HexText.print key.dip.toNat ++ '_' :: HexText.print key.sp.toNat ++
    '_' :: HexText.print key.dp.toNat ++ ".txt".toList

/-- What the loop prints for the byte at `i`. -/
def ssnByteText (blockOffset : UInt16) (b : UInt8) (i : Nat) : List Char :=
  (if (blockOffset.toNat % 32 + i) % 32 = 0 then HexDump.byte b
    else ' ' :: HexDump.byte b) ++
    if (blockOffset.toNat % 32 + i) % 32 = 31 then ['\n'] else []

/-- The files, by their names, and the table. -/
structure SsnFiles where
  tupleBlock : List FrcTupleBlock
  text : List Char → List Char

/-- `pr_ssn_pkt_process` of `frctweak_file.c`; `opens` says whether `fopen`
succeeds. -/
def prSsnPktFile (recvDir : List Char) (mem : Nat → UInt8) (dmaPkt : Nat)
    (dmaHdr : FrcDmaHdrT) (blockLen : UInt16) (opens : Bool)
    (text : List Char → List Char) : List Char → List Char :=
  let payload := frcSsnBlockData mem dmaPkt sizeofDmaHdr
    dmaHdr.totalPaylen.toNat
  let blockOffset := blockLen - dmaHdr.totalPaylen
  let filename := ssnFileName recvDir dmaHdr.key
  if opens then
    Function.update text filename (text filename ++
      payload.zipIdx.flatMap fun (b, i) => ssnByteText blockOffset b i)
  else text

/-- A block as `pr_ssn_data` meets it: where it lies, the memory at that time,
and whether its file can be opened. -/
structure SsnFileBlock where
  dmaPkt : Nat
  mem : Nat → UInt8
  opens : Bool

/-- What `pr_ssn_data` does with a block. -/
def prSsnDataFile (recvDir : List Char) (files : SsnFiles)
    (block : SsnFileBlock) : Option SsnFiles :=
  let dmaHead := prSsnDmaHeadGet block.mem block.dmaPkt
  match fiveTupleMatchProcess files.tupleBlock dmaHead with
  | none => none
  | some (tupleBlock, blockLen) => some {
      tupleBlock
      text := prSsnPktFile recvDir block.mem block.dmaPkt dmaHead blockLen
        block.opens files.text }

/-- `pr_ssn_data`, for one block after the other. -/
def prSsnData (recvDir : List Char) :
    SsnFiles → List SsnFileBlock → Option SsnFiles
  | files, [] => some files
  | files, block :: rest =>
      match prSsnDataFile recvDir files block with
      | none => none
      | some files => prSsnData recvDir files rest

end Files

section Names

/-- Each session has a file of its own. -/
theorem ssnFileName_injective (recvDir : List Char) {key key' : SsnFileKey}
    (h : ssnFileName recvDir key = ssnFileName recvDir key') : key = key' := by
  have hmark : ∀ n, '_' ∉ HexText.print n := fun n =>
    HexText.not_mem_print n (by decide)
  simp only [ssnFileName, List.append_assoc, List.cons_append] at h
  have hnames := (List.cons.inj (List.append_cancel_left h)).2
  obtain ⟨hsip, hrest⟩ := HexText.append_cons_inj (hmark _) (hmark _) hnames
  obtain ⟨hdip, hports⟩ := HexText.append_cons_inj (hmark _) (hmark _) hrest
  obtain ⟨hsp, hlast⟩ := HexText.append_cons_inj (hmark _) (hmark _) hports
  have hdp := List.append_cancel_right hlast
  obtain ⟨sip, dip, sp, dp⟩ := key
  obtain ⟨sip', dip', sp', dp'⟩ := key'
  simp only [SsnFileKey.mk.injEq]
  exact ⟨UInt32.toNat_inj.mp (HexText.print_injective hsip),
    UInt32.toNat_inj.mp (HexText.print_injective hdip),
    UInt16.toNat_inj.mp (HexText.print_injective hsp),
    UInt16.toNat_inj.mp (HexText.print_injective hdp)⟩

/-- The loop prints a part of a dump. -/
theorem ssnByteText_dump (blockOffset : UInt16) (payload : List UInt8)
    (start : Nat) :
    (payload.zipIdx start).flatMap (fun (b, i) => ssnByteText blockOffset b i) =
      HexDump.dump 32 (blockOffset.toNat + start) payload := by
  induction payload generalizing start with
  | nil => rfl
  | cons b rest ih =>
      have hplace : (blockOffset.toNat % 32 + start) % 32 =
          (blockOffset.toNat + start) % 32 := Nat.mod_add_mod _ _ _
      rw [List.zipIdx_cons, List.flatMap_cons, ih, HexDump.dump,
        Nat.add_assoc]
      congr 1
      show ssnByteText blockOffset b start = _
      rw [HexDump.item, ssnByteText, hplace]
      split <;> rfl

end Names

end Barley
