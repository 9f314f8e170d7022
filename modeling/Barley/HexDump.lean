/-
Bytes and numbers as hexadecimal text.  A dump has two digits for each byte, a
blank between bytes and so many bytes on a line; it can be written in parts and
is read back without loss.
-/
import Mathlib.Tactic.Common
import Mathlib.Data.List.Basic

namespace Barley

namespace HexDump

def digits : List Char := "0123456789ABCDEF".toList

def digit (value : Nat) : Char := digits.getD value '0'

/-- The value of a digit; blanks and newlines have none. -/
def value (char : Char) : Option Nat := digits.idxOf? char

def byte (b : UInt8) : List Char :=
  [digit (b.toNat / 16), digit (b.toNat % 16)]

/-- The text for the byte with an index: a blank goes in front of it unless it
starts a line, and the last one of a line ends it. -/
def item (width index : Nat) (b : UInt8) : List Char :=
  (if index % width = 0 then [] else [' ']) ++ byte b ++
    if index % width = width - 1 then ['\n'] else []

/-- The text for bytes, the first of which has index `index`. -/
def dump (width : Nat) : (index : Nat) → List UInt8 → List Char
  | _, [] => []
  | index, b :: rest => item width index b ++ dump width (index + 1) rest

/-- The bytes that pairs of digits spell. -/
def pairs : List Nat → List UInt8
  | high :: low :: rest => .ofNat (16 * high + low) :: pairs rest
  | _ => []

/-- The bytes of a dump. -/
def undump (text : List Char) : List UInt8 := pairs (text.filterMap value)

variable (width : Nat)

theorem value_digit {n : Nat} (h : n < 16) : value (digit n) = some n := by
  have hall : ∀ k < 16, value (digit k) = some k := by decide
  exact hall n h

theorem values_item (index : Nat) (b : UInt8) :
    (item width index b).filterMap value = [b.toNat / 16, b.toNat % 16] := by
  have hb : b.toNat < 256 := b.toNat_lt
  have hhigh := value_digit (show b.toNat / 16 < 16 by omega)
  have hlow := value_digit (show b.toNat % 16 < 16 by omega)
  have hblank : value ' ' = none := by decide
  have hline : value '\n' = none := by decide
  have hfront : (if index % width = 0 then [] else [' ']).filterMap value =
      [] := by
    split
    · rfl
    · rw [List.filterMap_cons_none hblank, List.filterMap_nil]
  have hback : (if index % width = width - 1 then ['\n'] else []).filterMap
      value = [] := by
    split
    · rw [List.filterMap_cons_none hline, List.filterMap_nil]
    · rfl
  rw [item, List.filterMap_append, List.filterMap_append, hfront, hback, byte,
    List.filterMap_cons_some hhigh, List.filterMap_cons_some hlow]
  rfl

/-- A dump is read back as the bytes it was written from. -/
theorem undump_dump (index : Nat) (bytes : List UInt8) :
    undump (dump width index bytes) = bytes := by
  induction bytes generalizing index with
  | nil => rfl
  | cons b rest ih =>
      have hrest := ih (index + 1)
      have hb : 16 * (b.toNat / 16) + b.toNat % 16 = b.toNat := by omega
      rw [undump] at hrest ⊢
      rw [dump, List.filterMap_append, values_item]
      show UInt8.ofNat (16 * (b.toNat / 16) + b.toNat % 16) :: pairs _ = _
      rw [hb, UInt8.ofNat_toNat]
      exact congrArg (b :: ·) hrest

/-- A dump can be written in parts. -/
theorem dump_append (index : Nat) (front back : List UInt8) :
    dump width index (front ++ back) =
      dump width index front ++ dump width (index + front.length) back := by
  induction front generalizing index with
  | nil => rfl
  | cons b front ih =>
      rw [List.cons_append, dump, ih, dump, List.append_assoc,
        List.length_cons]
      congr 3
      omega

/-- Only the place in its line matters for a byte. -/
theorem dump_mod {index index' : Nat} (h : index % width = index' % width)
    (bytes : List UInt8) : dump width index bytes = dump width index' bytes := by
  induction bytes generalizing index index' with
  | nil => rfl
  | cons b rest ih =>
      have hnext : (index + 1) % width = (index' + 1) % width := by
        rw [Nat.add_mod, h, ← Nat.add_mod]
      rw [dump, dump, item, item, h, ih hnext]

end HexDump

namespace HexText

/-- The digits that `%x` prints. -/
def print (n : Nat) : List Char := Nat.toDigits 16 n

/-- The number that digits spell. -/
def read (text : List Char) : Nat :=
  text.foldl (fun n char => 16 * n + (List.range 16).findIdx fun k =>
    k.digitChar = char) 0

theorem digit_read {n : Nat} (h : n < 16) :
    ((List.range 16).findIdx fun k => k.digitChar = n.digitChar) = n := by
  have hall : ∀ n < 16,
      ((List.range 16).findIdx fun k => k.digitChar = n.digitChar) = n := by
    decide
  exact hall n h

theorem read_print (n : Nat) : read (print n) = n := by
  induction n using Nat.strongRecOn with
  | ind n ih =>
      rw [print, Nat.toDigits_eq_if (by decide)]
      split
      · rename_i hlt
        rw [read, List.foldl_cons, List.foldl_nil, digit_read hlt]
        omega
      · have hquot := ih (n / 16) (by omega)
        have hrem := digit_read (show n % 16 < 16 by omega)
        rw [print, read] at hquot
        rw [read, List.foldl_append, hquot, List.foldl_cons, List.foldl_nil,
          hrem]
        omega

theorem print_injective {n m : Nat} (h : print n = print m) : n = m := by
  rw [← read_print n, h, read_print]

theorem not_mem_print {char : Char} (n : Nat)
    (h : ∀ k < 16, k.digitChar ≠ char) : char ∉ print n := by
  induction n using Nat.strongRecOn with
  | ind n ih =>
      rw [print, Nat.toDigits_eq_if (by decide)]
      split
      · rename_i hlt
        rw [List.mem_singleton]
        exact fun heq => h n hlt heq.symm
      · rw [List.mem_append, List.mem_singleton]
        rintro (hmem | heq)
        · exact ih (n / 16) (by omega) hmem
        · exact h (n % 16) (by omega) heq.symm

/-- A separator that is in neither front tells where the fronts end. -/
theorem append_cons_inj {A : Type} {mark : A} {front front' back back' : List A}
    (hfront : mark ∉ front) (hfront' : mark ∉ front')
    (h : front ++ mark :: back = front' ++ mark :: back') :
    front = front' ∧ back = back' := by
  induction front generalizing front' with
  | nil =>
      cases front' with
      | nil => exact ⟨rfl, (List.cons.inj h).2⟩
      | cons other rest =>
          obtain ⟨heq, -⟩ := List.cons.inj h
          exact absurd (heq ▸ List.mem_cons_self) hfront'
  | cons first front ih =>
      cases front' with
      | nil =>
          obtain ⟨heq, -⟩ := List.cons.inj h
          exact absurd (heq ▸ List.mem_cons_self) hfront
      | cons other rest =>
          obtain ⟨heq, hrest⟩ := List.cons.inj h
          obtain ⟨hsame, hback⟩ := ih
            (fun hmem => hfront (List.mem_cons_of_mem _ hmem))
            (fun hmem => hfront' (List.mem_cons_of_mem _ hmem)) hrest
          exact ⟨by rw [heq, hsame], hback⟩

end HexText

end Barley
