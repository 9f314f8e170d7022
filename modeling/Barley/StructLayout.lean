/-
Structures in memory.  Members lie in the order of their declaration, each at
the next multiple of its width; reversing the bytes of every 8-byte word turns
one byte order into the other when the members of each word are reversed too.
-/
import Barley.ByteOrder

namespace Barley

/-- A member of a structure: its width in bytes and its value. -/
structure Member where
  width : Nat
  value : Nat
  fits : value < 256 ^ width

def Member.bytes (order : Endian) (member : Member) : List UInt8 :=
  Bytes.store order member.width member.value

namespace Layout

/-- The bytes left free in front of a member, or behind the last one. -/
def gap (offset width : Nat) : Nat := (width - offset % width) % width

def imageFrom (order : Endian) : Nat → List Member → List UInt8
  | _, [] => []
  | offset, member :: rest =>
      List.replicate (gap offset member.width) 0 ++
        Member.bytes order member ++
        imageFrom order (offset + gap offset member.width + member.width) rest

/-- The widest member decides where the next structure may start. -/
def alignment (widths : List Nat) : Nat := widths.foldl max 1

/-- What a structure looks like in memory. -/
def image (order : Endian) (members : List Member) : List UInt8 :=
  let body := imageFrom order 0 members
  body ++ List.replicate
    (gap body.length (alignment (members.map Member.width))) 0

/-- What the members of the given widths are found to be. -/
def readFrom (order : Endian) (bytes : List UInt8) : Nat → List Nat → List Nat
  | _, [] => []
  | offset, width :: rest =>
      let start := offset + gap offset width
      Bytes.load order ((bytes.drop start).take width) ::
        readFrom order bytes (start + width) rest

def read (order : Endian) (widths : List Nat) (bytes : List UInt8) :
    List Nat :=
  readFrom order bytes 0 widths

/-- Every member starts where the one before it ends. -/
def packedFrom : Nat → List Nat → Bool
  | _, [] => true
  | offset, width :: rest =>
      gap offset width == 0 && packedFrom (offset + width) rest

def packed (widths : List Nat) : Bool :=
  packedFrom 0 widths && gap widths.sum (alignment widths) == 0

theorem length_bytes (order : Endian) (member : Member) :
    (Member.bytes order member).length = member.width :=
  Bytes.length_store order member.width member.value

theorem readFrom_imageFrom (order : Endian) (members : List Member)
    (front rest : List UInt8) :
    readFrom order (front ++ imageFrom order front.length members ++ rest)
      front.length (members.map Member.width) = members.map Member.value := by
  induction members generalizing front with
  | nil => rfl
  | cons member members ih =>
      -- the next member is read behind this one
      have hnext := ih (front ++
        (List.replicate (gap front.length member.width) 0 ++
          Member.bytes order member))
      rw [List.length_append, List.length_append, List.length_replicate,
        length_bytes, ← Nat.add_assoc] at hnext
      have hword : ((front ++ imageFrom order front.length (member :: members) ++
            rest).drop (front.length + gap front.length member.width)).take
          member.width = Member.bytes order member := by
        have hfront : front.length + gap front.length member.width =
            (front ++ List.replicate (gap front.length member.width)
              (0 : UInt8)).length := by
          rw [List.length_append, List.length_replicate]
        rw [imageFrom, hfront]
        simp only [List.append_assoc]
        rw [← List.append_assoc front, List.drop_left]
        conv_lhs => rw [← length_bytes order member]
        exact List.take_left
      rw [List.map_cons, List.map_cons, readFrom]
      simp only [hword]
      rw [Member.bytes, Bytes.load_store order member.fits]
      congr 1
      rw [imageFrom]
      simpa only [List.append_assoc] using hnext

/-- What is stored is what is read. -/
theorem read_image (order : Endian) (members : List Member)
    (rest : List UInt8) :
    read order (members.map Member.width) (image order members ++ rest) =
      members.map Member.value := by
  have hread := readFrom_imageFrom order members []
    (List.replicate (gap (imageFrom order 0 members).length
      (alignment (members.map Member.width))) 0 ++ rest)
  rw [List.nil_append, ← List.append_assoc] at hread
  exact hread

theorem imageFrom_of_packed (order : Endian) (members : List Member)
    (offset : Nat)
    (hpacked : packedFrom offset (members.map Member.width) = true) :
    imageFrom order offset members =
      members.flatMap (Member.bytes order) := by
  induction members generalizing offset with
  | nil => rfl
  | cons member members ih =>
      rw [List.map_cons, packedFrom, Bool.and_eq_true, beq_iff_eq] at hpacked
      obtain ⟨hgap, hrest⟩ := hpacked
      rw [imageFrom, hgap, Nat.add_zero, ih _ hrest]
      rfl

theorem length_flatMap_bytes (order : Endian) (members : List Member) :
    (members.flatMap (Member.bytes order)).length =
      (members.map Member.width).sum := by
  rw [List.length_flatMap]
  congr 1
  exact List.map_congr_left fun member _ => length_bytes order member

/-- Without gaps, a structure is its members one after the other. -/
theorem image_of_packed (order : Endian) {members : List Member}
    (hpacked : packed (members.map Member.width) = true) :
    image order members = members.flatMap (Member.bytes order) := by
  rw [packed, Bool.and_eq_true, beq_iff_eq] at hpacked
  obtain ⟨hpacked, htail⟩ := hpacked
  rw [image, imageFrom_of_packed order members 0 hpacked]
  simp only [length_flatMap_bytes, htail]
  exact List.append_nil _

end Layout

namespace Bytes

/-- Reverses each of the first words of 8 bytes. -/
def swapWords : Nat → List UInt8 → List UInt8
  | 0, bytes => bytes
  | count + 1, bytes =>
      (bytes.take 8).reverse ++ swapWords count (bytes.drop 8)

theorem swapWords_append (count : Nat) {word : List UInt8}
    (hword : word.length = 8) (rest : List UInt8) :
    swapWords (count + 1) (word ++ rest) =
      word.reverse ++ swapWords count rest := by
  rw [swapWords, ← hword, List.take_left, List.drop_left]

theorem reverse_flatMap_bytes (members : List Member) :
    (members.flatMap (Member.bytes .little)).reverse =
      members.reverse.flatMap (Member.bytes .big) := by
  rw [List.reverse_flatMap]
  rfl

theorem sum_words (words : List (List Member))
    (hwords : ∀ word ∈ words, (word.map Member.width).sum = 8) :
    (words.flatten.map Member.width).sum = 8 * words.length := by
  induction words with
  | nil => rfl
  | cons word words ih =>
      have hword := hwords word List.mem_cons_self
      have hrest := ih fun other hother =>
        hwords other (List.mem_cons_of_mem word hother)
      rw [List.flatten_cons, List.map_append, List.sum_append, hword, hrest,
        List.length_cons]
      omega

/-- Swapped words hold the members of each word in the other order. -/
theorem swapWords_members (words : List (List Member))
    (hwords : ∀ word ∈ words, (word.map Member.width).sum = 8) :
    swapWords words.length
        (words.flatten.flatMap (Member.bytes .little)) =
      (words.map List.reverse).flatten.flatMap (Member.bytes .big) := by
  induction words with
  | nil => rfl
  | cons word words ih =>
      have hword := hwords word List.mem_cons_self
      have hrest : ∀ other ∈ words, (other.map Member.width).sum = 8 :=
        fun other hother => hwords other (List.mem_cons_of_mem word hother)
      have hlen : (word.flatMap (Member.bytes .little)).length = 8 :=
        (Layout.length_flatMap_bytes .little word).trans hword
      rw [List.flatten_cons, List.flatMap_append, List.length_cons,
        swapWords_append _ hlen, reverse_flatMap_bytes, ih hrest,
        List.map_cons, List.flatten_cons, List.flatMap_append]

end Bytes

end Barley
