/-
Registers that several parties add to.  Additions commute, so it does not
matter in which order they reach the registers, and books that balance in every
pass balance in the end.
-/
import Mathlib.Algebra.BigOperators.Group.List.Basic

namespace Barley

namespace Registers

variable {S M W : Type} [DecidableEq S] [AddCommMonoid M]

/-- An atomic addition. -/
def add (regs : S → M) (entry : S × M) : S → M :=
  Function.update regs entry.1 (regs entry.1 + entry.2)

/-- What the entries add to the registers of a group. -/
def share (group : List S) (entries : List (S × M)) : M :=
  (entries.map fun entry => if entry.1 ∈ group then entry.2 else 0).sum

/-- The sum of the registers of a group. -/
def sum (group : List S) (regs : S → M) : M := (group.map regs).sum

section Shares

variable (group : List S)

@[simp] theorem share_nil : share group ([] : List (S × M)) = 0 := rfl

@[simp] theorem share_cons (entry : S × M) (entries : List (S × M)) :
    share group (entry :: entries) =
      (if entry.1 ∈ group then entry.2 else 0) + share group entries := by
  rw [share, List.map_cons, List.sum_cons, share]

@[simp] theorem share_append (first second : List (S × M)) :
    share group (first ++ second) = share group first + share group second := by
  rw [share, List.map_append, List.sum_append, share, share]

/-- Entries for other registers are no share of the group. -/
theorem share_eq_zero {entries : List (S × M)} {kinds : List S}
    (hkinds : ∀ entry ∈ entries, entry.1 ∈ kinds)
    (hout : ∀ s ∈ kinds, s ∉ group) : share group entries = 0 := by
  induction entries with
  | nil => rfl
  | cons entry entries ih =>
      have hentry := hout _ (hkinds entry List.mem_cons_self)
      rw [share_cons, if_neg hentry, zero_add]
      exact ih fun other hmem => hkinds other (List.mem_cons_of_mem _ hmem)

theorem share_flatMap (stats : W → List (S × M)) (passes : List W) :
    share group (passes.flatMap stats) =
      (passes.map fun pass => share group (stats pass)).sum := by
  induction passes with
  | nil => rfl
  | cons pass passes ih =>
      rw [List.flatMap_cons, share_append, ih, List.map_cons, List.sum_cons]

theorem share_perm {entries other : List (S × M)} (h : entries.Perm other) :
    share group entries = share group other := by
  apply List.Perm.sum_eq
  exact h.map _

end Shares

section Sums

variable {group : List S}

theorem sum_add (hnodup : group.Nodup) (regs : S → M) (entry : S × M) :
    sum group (add regs entry) =
      sum group regs + if entry.1 ∈ group then entry.2 else 0 := by
  induction group with
  | nil => simp [sum]
  | cons s group ih =>
      obtain ⟨hnot, hrest⟩ := List.nodup_cons.mp hnodup
      have hsum := ih hrest
      simp only [sum, List.map_cons, List.sum_cons] at hsum ⊢
      rw [hsum]
      by_cases hs : entry.1 = s
      · have hout : entry.1 ∉ group := by
          rw [hs]
          exact hnot
        rw [if_neg hout, if_pos (by rw [hs]; exact List.mem_cons_self)]
        simp only [add, hs, Function.update_self, add_zero]
        exact add_right_comm _ _ _
      · have hkeep : add regs entry s = regs s :=
          Function.update_of_ne (Ne.symm hs) _ _
        have hmem : entry.1 ∈ s :: group ↔ entry.1 ∈ group := by
          simp [hs]
        rw [hkeep]
        simp only [hmem, add_assoc]

/-- The registers of a group hold what was added to them. -/
theorem sum_foldl_add (hnodup : group.Nodup) (entries : List (S × M))
    (regs : S → M) :
    sum group (entries.foldl add regs) =
      sum group regs + share group entries := by
  induction entries generalizing regs with
  | nil => exact (add_zero _).symm
  | cons entry entries ih =>
      rw [List.foldl_cons, ih, sum_add hnodup, share_cons, add_assoc]

omit [DecidableEq S] in
theorem sum_zero (group : List S) : sum group (fun _ => (0 : M)) = 0 := by
  induction group with
  | nil => rfl
  | cons s group ih =>
      rw [sum, List.map_cons, List.sum_cons, zero_add]
      exact ih

/-- In whatever order the entries of the passes get there. -/
theorem sum_passes (hnodup : group.Nodup) (stats : W → List (S × M))
    (passes : List W) {entries : List (S × M)}
    (hperm : entries.Perm (passes.flatMap stats)) :
    sum group (entries.foldl add fun _ => 0) =
      (passes.map fun pass => share group (stats pass)).sum := by
  rw [sum_foldl_add hnodup, sum_zero, zero_add, share_perm group hperm,
    share_flatMap]

/-- Books that balance in every pass balance in the end. -/
theorem balance {other : List S} (hnodup : group.Nodup) (hother : other.Nodup)
    {stats : W → List (S × M)} {passes : List W}
    (hpass : ∀ pass ∈ passes,
      share group (stats pass) = share other (stats pass))
    {entries : List (S × M)} (hperm : entries.Perm (passes.flatMap stats)) :
    sum group (entries.foldl add fun _ => 0) =
      sum other (entries.foldl add fun _ => 0) := by
  rw [sum_passes hnodup stats passes hperm,
    sum_passes hother stats passes hperm]
  exact congrArg List.sum (List.map_congr_left hpass)

end Sums

end Registers

end Barley
