/-
Nested loops as one list.  The place of a combination is made of the places of
its parts, and the first combination with a property of each part is made of
the first parts.
-/
import Mathlib.Data.List.Basic
import Mathlib.Tactic.Common

namespace Barley

namespace NestedLoops

variable {A B : Type}

/-- All pairs, the first component in the outer loop. -/
def nested (outer : List A) (inner : List B) : List (A × B) :=
  outer.flatMap fun a => inner.map (Prod.mk a)

variable {outer : List A} {inner : List B}

theorem nested_cons (a : A) :
    nested (a :: outer) inner = inner.map (Prod.mk a) ++ nested outer inner :=
  rfl

theorem length_nested (outer : List A) (inner : List B) :
    (nested outer inner).length = outer.length * inner.length := by
  induction outer with
  | nil => simp [nested]
  | cons a outer ih =>
      rw [nested_cons, List.length_append, List.length_map, ih,
        List.length_cons, Nat.succ_mul, Nat.add_comm]

/-- Without a good inner part there is no good combination. -/
theorem findIdx?_nested_of_none (p : A → Bool) {q : B → Bool}
    (hnone : inner.findIdx? q = none) :
    (nested outer inner).findIdx? (fun pair => p pair.1 && q pair.2) =
      none := by
  rw [List.findIdx?_eq_none_iff] at hnone ⊢
  rintro ⟨a, b⟩ hmem
  obtain ⟨a', _, hpair⟩ := List.mem_flatMap.mp hmem
  obtain ⟨b', hb, heq⟩ := List.mem_map.mp hpair
  cases heq
  rw [hnone b hb, Bool.and_false]

/-- The first good combination is made of the first good parts. -/
theorem findIdx?_nested (outer : List A) (inner : List B) (p : A → Bool)
    (q : B → Bool) :
    (nested outer inner).findIdx? (fun pair => p pair.1 && q pair.2) =
      (outer.findIdx? p).bind fun i =>
        (inner.findIdx? q).map fun j => i * inner.length + j := by
  cases hinner : inner.findIdx? q with
  | none =>
      rw [findIdx?_nested_of_none p hinner]
      cases outer.findIdx? p <;> rfl
  | some j =>
      induction outer with
      | nil => rfl
      | cons a outer ih =>
          rw [nested_cons, List.findIdx?_append, List.findIdx?_map,
            List.findIdx?_cons, List.length_map, ih]
          have hcomp : ((fun pair : A × B => p pair.1 && q pair.2) ∘
              Prod.mk a) = fun b => p a && q b := rfl
          rw [hcomp]
          by_cases ha : p a
          · simp [ha, hinner]
          · have hnone : inner.findIdx? (fun b => p a && q b) = none := by
              rw [List.findIdx?_eq_none_iff]
              intro b _
              simp [ha]
            rw [hnone, Option.none_or]
            simp only [ha]
            cases outer.findIdx? p with
            | none => rfl
            | some i =>
                simp only [Option.bind_some, Option.map_some,
                  Bool.false_eq_true, if_false, Option.some.injEq]
                rw [Nat.succ_mul]
                omega

end NestedLoops

end Barley
