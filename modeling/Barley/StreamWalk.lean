/-
Walks along spans.  A walk stands at a position; a span that starts there moves
it to the end of the span, if that is later.  Two walks are compared: one that
looks at the positions themselves, and one that takes positions of the same
rank for the same.
-/
import Mathlib.Tactic.Common
import Mathlib.Data.List.Basic

namespace Barley

namespace Walk

section Walks

variable {P : Type} (starts later : P → P → Bool) (stop : Bool)

/-- Where a walk ends.  With `stop` it does not go past a span that starts
elsewhere. -/
def walk : List (P × P) → P → P
  | [], pos => pos
  | span :: rest, pos =>
      if starts span.1 pos then
        walk rest (if later span.2 pos then span.2 else pos)
      else if stop then pos
      else walk rest pos

variable {starts later} in
/-- Moving all positions moves the walk, if the tests do not notice. -/
theorem walk_map {Q : Type} {starts' later' : Q → Q → Bool} (f : P → Q)
    (hstarts : ∀ a b, starts' (f a) (f b) = starts a b)
    (hlater : ∀ a b, later' (f a) (f b) = later a b)
    (spans : List (P × P)) (pos : P) :
    walk starts' later' stop (spans.map (Prod.map f f)) (f pos) =
      f (walk starts later stop spans pos) := by
  induction spans generalizing pos with
  | nil => rfl
  | cons span rest ih =>
      simp only [List.map_cons, walk, Prod.map_fst, Prod.map_snd, hstarts,
        hlater]
      split
      · rw [← ih, apply_ite f]
      · split
        · rfl
        · exact ih pos

variable {later} (rank : P → Nat) (inside : P → Prop)
  (hrank : ∀ a b, inside a → inside b → later a b = true → rank b < rank a)

include hrank in
/-- A walk inside a region where later means higher never goes back. -/
theorem rank_le_walk {spans : List (P × P)} {pos : P}
    (hspans : ∀ span ∈ spans, inside span.2) (hpos : inside pos) :
    rank pos ≤ rank (walk starts later stop spans pos) := by
  induction spans generalizing pos with
  | nil => exact Nat.le_refl _
  | cons span rest ih =>
      have hspan := hspans span List.mem_cons_self
      have hrest := fun other hother =>
        hspans other (List.mem_cons_of_mem span hother)
      rw [walk]
      split
      · split
        · have hlt := hrank _ _ hspan hpos ‹_›
          exact Nat.le_trans (Nat.le_of_lt hlt) (ih hrest hspan)
        · exact ih hrest hpos
      · split
        · exact Nat.le_refl _
        · exact ih hrest hpos

/-- Whenever a span moves the walk by `same`, the walk stands at a position
where spans can start, and not only at one that is the same. -/
def Meets (same later : P → P → Bool) (stop : Bool) (on : P → Prop) :
    List (P × P) → P → Prop
  | [], _ => True
  | span :: rest, pos =>
      if same span.1 pos then
        if later span.2 pos then
          on pos ∧ Meets same later stop on rest span.2
        else Meets same later stop on rest pos
      else stop = false → Meets same later stop on rest pos

variable {stop} {same : P → P → Bool} {on : P → Prop} {spans : List (P × P)}
  {pos : P}

section Plain

variable [DecidableEq P]

variable (on) in
/-- Spans start only at positions that are `on`. -/
theorem walk_of_not_on
    (hstarts : ∀ span ∈ spans, ∀ pos, span.1 = pos → on pos)
    (hpos : ¬ on pos) :
    walk (fun a b => a = b) later stop spans pos = pos := by
  induction spans with
  | nil => rfl
  | cons span rest ih =>
      have hne : ¬ span.1 = pos := fun heq =>
        hpos (hstarts span List.mem_cons_self pos heq)
      have hrest := ih fun other hother =>
        hstarts other (List.mem_cons_of_mem span hother)
      rw [walk, decide_eq_false hne, if_neg Bool.false_ne_true, hrest, ite_self]

include hrank

/-- The walk by positions and the walk by ranks end at the same rank exactly
if every span that moves the second one moves the first one too. -/
theorem rank_walk_iff_meets
    (hstarts : ∀ span ∈ spans, ∀ pos,
      span.1 = pos ↔ rank span.1 = rank pos ∧ on pos)
    (hspans : ∀ span ∈ spans, inside span.1 ∧ inside span.2)
    (hsame : ∀ a b, same a b = true ↔ rank a = rank b)
    (hinside : ∀ a b, rank a = rank b → inside a → inside b) :
    rank (walk (fun a b => a = b) later stop spans pos) =
        rank (walk same later stop spans pos) ↔
      Meets same later stop on spans pos := by
  induction spans generalizing pos with
  | nil => exact iff_of_true rfl trivial
  | cons span rest ih =>
      obtain ⟨hfirst, hlast⟩ := hspans span List.mem_cons_self
      have hstarts' := fun other hother =>
        hstarts other (List.mem_cons_of_mem span hother)
      have hspans' := fun other hother =>
        hspans other (List.mem_cons_of_mem span hother)
      have hends := fun other hother => (hspans' other hother).2
      have hstart := hstarts span List.mem_cons_self pos
      have hstuck : ¬ on pos →
          walk (fun a b => a = b) later stop rest pos = pos :=
        walk_of_not_on on fun other hother pos heq =>
          ((hstarts' other hother pos).mp heq).2
      rw [walk, walk, Meets]
      by_cases hmeet : same span.1 pos = true
      · have hequal := (hsame span.1 pos).mp hmeet
        have hpos := hinside _ _ hequal hfirst
        rw [if_pos hmeet, if_pos hmeet]
        by_cases hlater : later span.2 pos = true
        · rw [if_pos hlater, if_pos hlater]
          by_cases hon : on pos
          · rw [if_pos (decide_eq_true (hstart.mpr ⟨hequal, hon⟩)),
              and_iff_right hon]
            exact ih hstarts' hspans'
          · -- the walk by positions stays for ever
            have hne : ¬ span.1 = pos := fun heq => hon (hstart.mp heq).2
            have hmoved := hrank _ _ hlast hpos hlater
            have hfar := rank_le_walk same stop rank
              inside hrank hends hlast
            rw [decide_eq_false hne, if_neg Bool.false_ne_true, hstuck hon,
              ite_self]
            exact iff_of_false (by omega) fun hmeets => hon hmeets.1
        · rw [if_neg hlater, if_neg hlater]
          by_cases hon : on pos
          · rw [if_pos (decide_eq_true (hstart.mpr ⟨hequal, hon⟩))]
            exact ih hstarts' hspans'
          · have hne : ¬ span.1 = pos := fun heq => hon (hstart.mp heq).2
            rw [decide_eq_false hne, if_neg Bool.false_ne_true, hstuck hon,
              ite_self, ← ih hstarts' hspans', hstuck hon]
      · have hne : ¬ span.1 = pos := fun heq =>
          hmeet ((hsame span.1 pos).mpr (hstart.mp heq).1)
        rw [decide_eq_false hne, if_neg hmeet, if_neg hmeet]
        simp only [Bool.false_eq_true, if_false]
        cases stop with
        | true => exact iff_of_true rfl nofun
        | false =>
            simp only [Bool.false_eq_true, if_false, forall_const]
            exact ih hstarts' hspans'

/-- A walk that stops at the first span elsewhere stays at its rank exactly if
none of the spans up to there ends later. -/
theorem rank_walk_eq_iff
    (hspans : ∀ span ∈ spans, inside span.2)
    (hstarts : ∀ span ∈ spans, span.1 = pos → inside pos) :
    rank (walk (fun a b => a = b) later true spans pos) = rank pos ↔
      ∀ span ∈ spans.takeWhile fun span => span.1 = pos,
        later span.2 pos = false := by
  induction spans with
  | nil => exact iff_of_true rfl nofun
  | cons span rest ih =>
      have hlast := hspans span List.mem_cons_self
      have hspans' := fun other hother =>
        hspans other (List.mem_cons_of_mem span hother)
      have hstarts' := fun other hother =>
        hstarts other (List.mem_cons_of_mem span hother)
      rw [walk, List.takeWhile_cons]
      by_cases hstart : span.1 = pos
      · have hpos := hstarts span List.mem_cons_self hstart
        rw [if_pos (decide_eq_true hstart), if_pos (decide_eq_true hstart),
          List.forall_mem_cons]
        cases hlater : later span.2 pos with
        | true =>
            have hmoved := hrank _ _ hlast hpos hlater
            have hfar := rank_le_walk (fun a b => a = b) true rank inside hrank
              hspans' hlast
            rw [if_pos rfl]
            exact iff_of_false (by omega) fun h => Bool.noConfusion h.1
        | false =>
            rw [if_neg Bool.false_ne_true, ih hspans' hstarts',
              and_iff_right rfl]
      · rw [decide_eq_false hstart, if_neg Bool.false_ne_true,
          if_neg Bool.false_ne_true, if_pos rfl]
        exact iff_of_true rfl nofun

end Plain

end Walks

end Walk

end Barley
