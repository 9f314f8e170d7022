/-
Singly linked chains.  The links are a partial function on nodes; a chain is
the list of the nodes that they visit before they end.
-/
import Mathlib.Data.List.Basic
import Mathlib.Logic.Function.Basic

namespace Barley
namespace Linked

variable {α : Type*} {next next' : α → Option α}

/-- The links lead from `p` through these nodes and end. -/
def Chain (next : α → Option α) : Option α → List α → Prop
  | p, [] => p = none
  | p, a :: rest => p = some a ∧ Chain next (next a) rest

/-- A loop along the links to the first node that passes the test.  The outer
option is `none` when the steps did not suffice. -/
def search (next : α → Option α) (test : α → Bool) :
    Nat → Option α → Option (Option α)
  | 0, _ => none
  | _ + 1, none => some none
  | steps + 1, some a =>
      if test a then some (some a) else search next test steps (next a)

/-- The nodes that the links visit within some number of steps. -/
def follow (next : α → Option α) : Nat → Option α → List α
  | 0, _ => []
  | _ + 1, none => []
  | steps + 1, some a => a :: follow next steps (next a)

theorem Chain.unique {p : Option α} {nodes nodes' : List α}
    (h : Chain next p nodes) (h' : Chain next p nodes') : nodes = nodes' := by
  induction nodes generalizing p nodes' with
  | nil =>
      cases nodes' with
      | nil => rfl
      | cons a rest =>
          have hnull : p = none := h
          rw [hnull] at h'
          nomatch h'.1
  | cons a rest ih =>
      obtain ⟨rfl, hrest⟩ := h
      cases nodes' with
      | nil => nomatch h'
      | cons b rest' =>
          obtain ⟨hb, hrest'⟩ := h'
          obtain rfl := Option.some.inj hb
          rw [ih hrest hrest']

theorem Chain.suffix {p : Option α} {front back : List α} {a : α}
    (h : Chain next p (front ++ a :: back)) : Chain next (next a) back := by
  induction front generalizing p with
  | nil => exact h.2
  | cons b rest ih => exact ih h.2

/-- A chain visits no node twice: from the second visit on it would be longer
than itself. -/
theorem Chain.nodup {p : Option α} {nodes : List α}
    (h : Chain next p nodes) : nodes.Nodup := by
  induction nodes generalizing p with
  | nil => exact List.nodup_nil
  | cons a rest ih =>
      refine List.nodup_cons.2 ⟨?_, ih h.2⟩
      intro hmem
      obtain ⟨front, back, rfl⟩ := List.append_of_mem hmem
      have hagain : Chain next (next a) back := h.2.suffix
      have hlen := congrArg List.length (h.2.unique hagain)
      rw [List.length_append, List.length_cons] at hlen
      omega

/-- Links of other nodes do not matter. -/
theorem Chain.congr {p : Option α} {nodes : List α} (h : Chain next p nodes)
    (heq : ∀ a ∈ nodes, next' a = next a) : Chain next' p nodes := by
  induction nodes generalizing p with
  | nil => exact h
  | cons a rest ih =>
      refine ⟨h.1, ?_⟩
      rw [heq a List.mem_cons_self]
      exact ih h.2 fun b hb => heq b (List.mem_cons_of_mem a hb)

theorem search_eq_find {test : α → Bool} {p : Option α} {nodes : List α}
    (h : Chain next p nodes) {steps : Nat} (hsteps : nodes.length < steps) :
    search next test steps p = some (nodes.find? test) := by
  induction nodes generalizing p steps with
  | nil =>
      obtain ⟨steps, rfl⟩ := Nat.exists_eq_add_of_lt hsteps
      rw [h]
      rfl
  | cons a rest ih =>
      obtain ⟨rfl, hrest⟩ := h
      cases steps with
      | zero => exact absurd hsteps (Nat.not_lt_zero _)
      | succ steps =>
          rw [search, List.find?_cons]
          cases htest : test a with
          | true => rfl
          | false => exact ih hrest (Nat.lt_of_succ_lt_succ hsteps)

theorem follow_eq {p : Option α} {nodes : List α} (h : Chain next p nodes)
    {steps : Nat} (hsteps : nodes.length ≤ steps) :
    follow next steps p = nodes := by
  induction nodes generalizing p steps with
  | nil =>
      rw [h]
      cases steps with
      | zero => rfl
      | succ steps => rfl
  | cons a rest ih =>
      obtain ⟨rfl, hrest⟩ := h
      cases steps with
      | zero => exact absurd hsteps (Nat.not_succ_le_zero _)
      | succ steps => rw [follow, ih hrest (Nat.le_of_succ_le_succ hsteps)]

section Update

variable [DecidableEq α]

/-- A new node behind `a`. -/
theorem Chain.insert {a b : α} {nodes : List α}
    (h : Chain next (next a) nodes) (hb : b ∉ nodes) (ha : a ∉ nodes)
    (hnext : next' = Function.update (Function.update next b (next a)) a
      (some b)) (hab : a ≠ b) : Chain next' (next' a) (b :: nodes) := by
  rw [hnext]
  refine ⟨Function.update_self .., ?_⟩
  rw [Function.update_of_ne hab.symm, Function.update_self]
  refine h.congr ?_
  intro c hc
  rw [Function.update_of_ne (ne_of_mem_of_not_mem hc ha),
    Function.update_of_ne (ne_of_mem_of_not_mem hc hb)]

/-- The search for the node whose link leads to `a` ends at the one right
before it. -/
theorem Chain.find_previous {p : Option α} {first a : α}
    {front back : List α}
    (h : Chain next p (first :: front ++ a :: back)) :
    (first :: front ++ a :: back).find? (fun c => next c = some a) =
      some ((first :: front).getLast (List.cons_ne_nil first front)) := by
  induction front generalizing p first with
  | nil =>
      have hlink : next first = some a := h.2.1
      rw [List.cons_append, List.find?_cons, decide_eq_true hlink]
      rfl
  | cons b rest ih =>
      have hlink : next first = some b := h.2.1
      have hne : b ≠ a := by
        rintro rfl
        have hnodup : (b :: (rest ++ b :: back)).Nodup := h.2.nodup
        rw [List.nodup_cons] at hnodup
        exact hnodup.1 (List.mem_append_right _ List.mem_cons_self)
      have hfalse : ¬ next first = some a := by
        rw [hlink]
        exact fun heq => hne (Option.some.inj heq)
      rw [List.cons_append, List.find?_cons, decide_eq_false hfalse]
      exact ih h.2

/-- Taking `a` out: the node before it gets its link. -/
theorem Chain.unlink {p : Option α} {first a : α} {front back : List α}
    (h : Chain next p (first :: front ++ a :: back)) :
    Chain (Function.update next
      ((first :: front).getLast (List.cons_ne_nil first front)) (next a)) p
      (first :: front ++ back) := by
  induction front generalizing p first with
  | nil =>
      refine ⟨h.1, ?_⟩
      have hback : Chain next (next a) back := h.2.2
      rw [List.getLast_singleton, Function.update_self]
      refine hback.congr ?_
      intro c hc
      refine Function.update_of_ne ?_ _ _
      rintro rfl
      have hnodup := h.nodup
      rw [List.cons_append, List.nodup_cons] at hnodup
      exact hnodup.1 (List.mem_append_right _ (List.mem_cons_of_mem a hc))
  | cons b rest ih =>
      refine ⟨h.1, ?_⟩
      have hne : first ≠ (b :: rest).getLast (List.cons_ne_nil b rest) := by
        intro heq
        have hnodup := h.nodup
        rw [List.cons_append, List.nodup_cons] at hnodup
        refine hnodup.1 (List.mem_append_left _ ?_)
        rw [heq]
        exact List.getLast_mem _
      rw [List.getLast_cons (List.cons_ne_nil b rest),
        Function.update_of_ne hne]
      exact ih h.2

end Update

end Linked
end Barley
