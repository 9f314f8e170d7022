/-
Writes scattered over a memory.  What is written to a place of its own is found
there, whatever else is written and in whatever order.
-/
import Barley.RingWindow

namespace Barley

namespace Scatter

variable {A : Type}

/-- Items for the places from an address on. -/
structure Write (A : Type) where
  addr : Nat
  items : List A

/-- The first place behind a write. -/
def Write.stop (write : Write A) : Nat := write.addr + write.items.length

/-- Two writes that have no place in common. -/
def Write.Apart (first second : Write A) : Prop :=
  first.stop ≤ second.addr ∨ second.stop ≤ first.addr

def apply (mem : Nat → A) (write : Write A) : Nat → A :=
  Ring.write mem write.addr write.items

/-- A memory after all writes. -/
def run (mem : Nat → A) (writes : List (Write A)) : Nat → A :=
  writes.foldl apply mem

variable (mem : Nat → A) {write : Write A} {writes : List (Write A)}

theorem Write.Apart.symm {first second : Write A}
    (h : first.Apart second) : second.Apart first :=
  Or.symm h

theorem apply_inside {x : Nat} (hle : write.addr ≤ x) (hlt : x < write.stop) :
    some (apply mem write x) = write.items[x - write.addr]? := by
  have hindex : x - write.addr < write.items.length := by
    rw [Write.stop] at hlt
    omega
  rw [apply, Ring.write, if_pos hle, List.getElem?_eq_getElem hindex]
  rfl

theorem apply_outside {x : Nat} (h : x < write.addr ∨ write.stop ≤ x) :
    apply mem write x = mem x := by
  rw [apply, Ring.write]
  split
  · rename_i hle
    have hindex : write.items.length ≤ x - write.addr := by
      rw [Write.stop] at h
      omega
    rw [List.getElem?_eq_none hindex]
    rfl
  · rfl

/-- Places that nothing is written to are as before. -/
theorem run_outside {x : Nat}
    (h : ∀ write ∈ writes, x < write.addr ∨ write.stop ≤ x) :
    run mem writes x = mem x := by
  induction writes generalizing mem with
  | nil => rfl
  | cons first rest ih =>
      have hfirst := h first List.mem_cons_self
      have hrest := ih (apply mem first) fun write hwrite =>
        h write (List.mem_cons_of_mem first hwrite)
      exact hrest.trans (apply_outside mem hfirst)

/-- A place of a write holds its item, when all other writes are apart. -/
theorem run_inside (hmem : write ∈ writes)
    (hapart : ∀ other ∈ writes, other = write ∨ other.Apart write)
    {x : Nat} (hle : write.addr ≤ x) (hlt : x < write.stop) :
    run mem writes x = apply mem write x := by
  induction writes generalizing mem with
  | nil => cases hmem
  | cons first rest ih =>
      have hother : ∀ other ∈ rest, other = write ∨ other.Apart write :=
        fun other hother => hapart other (List.mem_cons_of_mem first hother)
      have hvalue : ∀ before : Nat → A,
          apply before write x = apply mem write x := by
        intro before
        have hbefore := apply_inside before hle hlt
        exact Option.some_inj.mp
          (hbefore.trans (apply_inside mem hle hlt).symm)
      by_cases hlater : write ∈ rest
      · exact (ih (apply mem first) hlater hother).trans
          (hvalue (apply mem first))
      · -- the write comes first, and all others are apart from it
        obtain rfl : write = first :=
          (List.mem_cons.mp hmem).resolve_right hlater
        refine run_outside (apply mem write) fun other hmem' => ?_
        rcases hother other hmem' with rfl | happ
        · exact absurd hmem' hlater
        · rcases happ with hbefore | hbehind
          · exact .inr (Nat.le_trans hbefore hle)
          · exact .inl (Nat.lt_of_lt_of_le hlt hbehind)

/-- What is written is what is read. -/
theorem read_run (hmem : write ∈ writes)
    (hapart : ∀ other ∈ writes, other = write ∨ other.Apart write) :
    Ring.read (run mem writes) write.addr write.items.length =
      write.items := by
  apply List.ext_getElem
  · rw [Ring.read, List.length_map, List.length_range]
  · intro k hread hk
    have hplace : write.addr + k < write.stop := by
      rw [Write.stop]
      omega
    have hitem := apply_inside mem (Nat.le_add_right write.addr k)
      hplace
    rw [Nat.add_sub_cancel_left, List.getElem?_eq_getElem hk] at hitem
    simp only [Ring.read, List.getElem_map, List.getElem_range]
    rw [run_inside mem hmem hapart (Nat.le_add_right _ _) hplace]
    exact Option.some_inj.mp hitem

theorem read_apply (write : Write A) :
    Ring.read (apply mem write) write.addr write.items.length =
      write.items :=
  read_run mem (List.mem_singleton_self write) fun _ hother =>
    .inl (List.mem_singleton.mp hother)

/-- What lies apart from a write is read as before. -/
theorem read_apply_apart {write : Write A} {offset count : Nat}
    (h : write.stop ≤ offset ∨ offset + count ≤ write.addr) :
    Ring.read (apply mem write) offset count = Ring.read mem offset count := by
  refine List.map_congr_left fun k hk => apply_outside mem ?_
  have hlt := List.mem_range.mp hk
  omega

omit mem in
theorem read_add (buff : Nat → A) (offset first second : Nat) :
    Ring.read buff offset (first + second) =
      Ring.read buff offset first ++
        Ring.read buff (offset + first) second := by
  simp only [Ring.read, List.range_add, List.map_append, List.map_map]
  congr 1
  refine List.map_congr_left fun k _ => ?_
  simp only [Function.comp_apply, Nat.add_assoc]

omit mem in
/-- What is read in one piece can be read in two. -/
theorem read_split {buff : Nat → A} {offset : Nat} {front back : List A}
    (h : Ring.read buff offset (front ++ back).length = front ++ back) :
    Ring.read buff offset front.length = front ∧
      Ring.read buff (offset + front.length) back.length = back := by
  rw [List.length_append, read_add] at h
  exact List.append_inj h (Ring.length_read ..)

end Scatter

end Barley
