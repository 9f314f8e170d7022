/-
Circular lists with links in both directions.  A link may be null, and what
writes through a null link fails; a cycle lists the nodes after the head.
-/
import Mathlib.Data.List.Chain
import Mathlib.Data.List.Nodup
import Mathlib.Logic.Function.Basic

namespace Barley

namespace CircList

/-- The links of every node, `none` for a null pointer. -/
structure Links (P : Type) where
  next : P → Option P
  prev : P → Option P

variable {P : Type}

/-- The second node is the one after the first. -/
structure Joined (links : Links P) (first second : P) : Prop where
  next : links.next first = some second
  prev : links.prev second = some first

/-- The links lead from the head through these nodes, each once, and back. -/
structure Cycle (links : Links P) (head : P) (nodes : List P) : Prop where
  joined : List.IsChain (Joined links) (head :: nodes ++ [head])
  nodup : (head :: nodes).Nodup

/-- Links agree on a chain if no node but the last has another successor, and
none but the first another predecessor. -/
theorem joined_congr {links links' : Links P} {nodes : List P}
    (h : List.IsChain (Joined links) nodes)
    (hnext : ∀ p ∈ nodes.dropLast, links'.next p = links.next p)
    (hprev : ∀ p ∈ nodes.tail, links'.prev p = links.prev p) :
    List.IsChain (Joined links') nodes := by
  rw [List.isChain_iff_forall_rel_of_append_cons_cons] at h ⊢
  intro first second front back heq
  have hjoined := h heq
  have hfirst : first ∈ nodes.dropLast := by
    rw [heq, List.dropLast_append_of_ne_nil (List.cons_ne_nil _ _)]
    exact List.mem_append_right _ List.mem_cons_self
  have hsecond : second ∈ nodes.tail := by
    rw [heq]
    cases front with
    | nil => exact List.mem_cons_self
    | cons p front =>
        exact List.mem_append_right _
          (List.mem_cons_of_mem _ List.mem_cons_self)
  exact ⟨(hnext first hfirst).trans hjoined.next,
    (hprev second hsecond).trans hjoined.prev⟩

/-- Links of other nodes do not matter. -/
theorem Cycle.congr {links links' : Links P} {head : P} {nodes : List P}
    (h : Cycle links head nodes)
    (hnext : ∀ p ∈ head :: nodes, links'.next p = links.next p)
    (hprev : ∀ p ∈ head :: nodes, links'.prev p = links.prev p) :
    Cycle links' head nodes where
  joined := by
    apply joined_congr h.joined
    · intro p hp
      rw [List.dropLast_concat] at hp
      exact hnext p hp
    · intro p hp
      rcases List.mem_append.mp hp with hp | hp
      · exact hprev p (List.mem_cons_of_mem _ hp)
      · exact hprev p (List.mem_singleton.mp hp ▸ List.mem_cons_self)
  nodup := h.nodup

section Around

variable {links : Links P} {head node : P}

/-- The neighbours of a node of the cycle; either may be the head. -/
theorem Cycle.around {before after : List P}
    (h : Cycle links head (before ++ node :: after)) :
    ∃ front p q back, head :: before = front ++ [p] ∧
      after ++ [head] = q :: back ∧
      List.IsChain (Joined links) (front ++ [p]) ∧ Joined links p node ∧
      Joined links node q ∧ List.IsChain (Joined links) (q :: back) := by
  obtain ⟨front, p, hfront⟩ : ∃ front p, head :: before = front ++ [p] :=
    ⟨_, _, (List.dropLast_append_getLast (List.cons_ne_nil head before)).symm⟩
  obtain ⟨q, back, hback⟩ : ∃ q back, after ++ [head] = q :: back :=
    List.exists_cons_of_ne_nil (List.append_ne_nil_of_right_ne_nil _
      (List.cons_ne_nil _ _))
  have hjoined := h.joined
  rw [show head :: (before ++ node :: after) ++ [head] =
    front ++ p :: node :: q :: back by
      rw [← List.cons_append, hfront, ← hback]
      simp] at hjoined
  obtain ⟨hp, hpnode, hrest⟩ := List.isChain_append_cons_cons.mp hjoined
  obtain ⟨hnodeq, hq⟩ := List.isChain_cons_cons.mp hrest
  exact ⟨front, p, q, back, hfront, hback, hp, hpnode, hnodeq, hq⟩

/-- A node and those from it to the head differ. -/
theorem Cycle.nodup_after {before after : List P}
    (h : Cycle links head (before ++ node :: after)) :
    (node :: (after ++ [head])).Nodup := by
  have hnodup := h.nodup
  rw [← List.cons_append] at hnodup
  have hafter := hnodup.of_append_right
  have hdisjoint := List.disjoint_of_nodup_append hnodup
  refine List.nodup_append.mpr ⟨hafter, List.nodup_singleton head, ?_⟩
  intro p hp q hq heq
  rw [List.mem_singleton] at hq
  exact hdisjoint List.mem_cons_self (hq ▸ heq ▸ hp)

end Around

section Operations

variable [DecidableEq P]

/-- An empty list: the head is linked to itself. -/
def Links.init (links : Links P) (head : P) : Links P where
  next := Function.update links.next head (some head)
  prev := Function.update links.prev head (some head)

/-- The node goes before the head. -/
def Links.addTail (links : Links P) (node head : P) : Option (Links P) :=
  (links.prev head).map fun last =>
    { next := Function.update (Function.update links.next last (some node))
        node (some head)
      prev := Function.update (Function.update links.prev node (some last))
        head (some node) }

/-- The neighbours of the node are linked to each other, the later one first;
the links of the node stay. -/
def Links.del (links : Links P) (node : P) : Option (Links P) := do
  let after ← links.next node
  let prev := Function.update links.prev after (links.prev node)
  let before ← prev node
  some { next := Function.update links.next before (links.next node), prev }

/-- A loop over the nodes after the head.  The outer option is `none` when the
steps did not suffice, the inner one when the loop came upon a null link. -/
def Links.walk (links : Links P) (head : P) :
    Nat → P → Option (Option (List P))
  | 0, _ => none
  | steps + 1, p =>
      match links.next p with
      | none => some none
      | some q =>
          if q = head then some (some [])
          else (links.walk head steps q).map (Option.map (q :: ·))

variable {links : Links P} {head node : P} {nodes : List P}

theorem cycle_init : Cycle (links.init head) head [] where
  joined := List.isChain_pair.mpr
    ⟨Function.update_self .., Function.update_self ..⟩
  nodup := List.nodup_singleton head

theorem walk_of_joined {first : P} {steps : Nat}
    (h : List.IsChain (Joined links) (first :: nodes ++ [head]))
    (hnot : head ∉ nodes) (hsteps : nodes.length < steps) :
    links.walk head steps first = some (some nodes) := by
  induction nodes generalizing first steps with
  | nil =>
      obtain ⟨steps, rfl⟩ := Nat.exists_eq_add_of_lt hsteps
      have hnext := (List.isChain_pair.mp h).next
      simp only [Links.walk, hnext]
      exact if_pos trivial
  | cons q nodes ih =>
      obtain ⟨steps, rfl⟩ := Nat.exists_eq_add_of_lt hsteps
      obtain ⟨hjoined, hrest⟩ := List.isChain_cons_cons.mp h
      have hne : q ≠ head := fun heq => hnot (heq ▸ List.mem_cons_self)
      have hlt : nodes.length < nodes.length + 1 + steps := by omega
      have hwalk := ih hrest (fun hmem => hnot (List.mem_cons_of_mem _ hmem)) hlt
      simp only [Links.walk, hjoined.next, if_neg hne, List.length_cons, hwalk,
        Option.map_some]

theorem walk_mono {p : P} {steps steps' : Nat} {visited : Option (List P)}
    (h : links.walk head steps p = some visited) (hle : steps ≤ steps') :
    links.walk head steps' p = some visited := by
  induction steps generalizing p steps' visited with
  | zero => nomatch h
  | succ steps ih =>
      obtain ⟨more, rfl⟩ := Nat.exists_eq_add_of_le hle
      rw [show steps + 1 + more = (steps + more) + 1 by omega]
      rw [Links.walk] at h ⊢
      cases hnext : links.next p with
      | none => rwa [hnext] at h
      | some q =>
          simp only [hnext] at h ⊢
          by_cases hq : q = head
          · rwa [if_pos hq] at h ⊢
          · rw [if_neg hq] at h ⊢
            obtain ⟨rest, hrest, hvisited⟩ := Option.map_eq_some_iff.mp h
            rw [ih hrest (Nat.le_add_right steps more), Option.map_some,
              hvisited]

/-- The loop ends, and visits the nodes of the cycle in their order. -/
theorem Cycle.walk (h : Cycle links head nodes) {steps : Nat}
    (hsteps : nodes.length < steps) :
    links.walk head steps head = some (some nodes) :=
  walk_of_joined h.joined (List.nodup_cons.mp h.nodup).1 hsteps

/-- Nothing else is visited. -/
theorem Cycle.walk_unique (h : Cycle links head nodes) {steps : Nat}
    {visited : Option (List P)}
    (hwalk : links.walk head steps head = some visited) :
    visited = some nodes := by
  have hmore := walk_mono hwalk (Nat.le_add_right steps (nodes.length + 1))
  rw [h.walk (by omega)] at hmore
  exact (Option.some.inj hmore).symm

/-- A new node becomes the last one. -/
theorem Cycle.addTail (h : Cycle links head nodes)
    (hnew : node ∉ head :: nodes) :
    ∃ links', links.addTail node head = some links' ∧
      Cycle links' head (nodes ++ [node]) ∧
      ∀ p, p ∉ head :: nodes → p ≠ node → links'.next p = links.next p := by
  obtain ⟨front, last, hsplit⟩ : ∃ front last, head :: nodes = front ++ [last] :=
    ⟨_, _, (List.dropLast_append_getLast (List.cons_ne_nil head nodes)).symm⟩
  have hjoined := h.joined
  rw [hsplit, List.append_assoc] at hjoined
  obtain ⟨hfront, hlast, _⟩ := List.isChain_append_cons_cons.mp hjoined
  refine ⟨_, by rw [Links.addTail, hlast.prev, Option.map_some], ⟨?_, ?_⟩, ?_⟩
  · have hnodup := h.nodup
    rw [hsplit] at hnodup hnew
    have hne : node ≠ last := fun heq =>
      hnew (heq ▸ List.mem_append_right _ List.mem_cons_self)
    have hhead : node ≠ head := fun heq => by
      rw [← hsplit, heq] at hnew
      exact hnew List.mem_cons_self
    rw [show head :: (nodes ++ [node]) ++ [head] =
      front ++ last :: node :: [head] by
        rw [← List.cons_append, hsplit]
        simp]
    refine List.isChain_append_cons_cons.mpr ⟨?_, ⟨?_, ?_⟩, ?_⟩
    · refine joined_congr hfront ?_ ?_
      · intro p hp
        rw [List.dropLast_concat] at hp
        have hpnode : p ≠ node := fun heq =>
          hnew (heq ▸ List.mem_append_left _ hp)
        have hplast : p ≠ last := fun heq =>
          List.disjoint_of_nodup_append hnodup hp
            (List.mem_singleton.mpr heq)
        exact (Function.update_of_ne hpnode ..).trans
          (Function.update_of_ne hplast ..)
      · intro p hp
        rw [← hsplit, List.tail_cons] at hp
        have hphead : p ≠ head := fun heq =>
          (List.nodup_cons.mp h.nodup).1 (heq ▸ hp)
        have hpnode : p ≠ node := fun heq => by
          rw [← hsplit, ← heq] at hnew
          exact hnew (List.mem_cons_of_mem _ hp)
        exact (Function.update_of_ne hphead ..).trans
          (Function.update_of_ne hpnode ..)
    · exact (Function.update_of_ne (Ne.symm hne) ..).trans
        (Function.update_self ..)
    · exact (Function.update_of_ne hhead ..).trans (Function.update_self ..)
    · exact List.isChain_pair.mpr
        ⟨Function.update_self .., Function.update_self ..⟩
  · rw [← List.cons_append, List.nodup_append]
    refine ⟨h.nodup, List.nodup_singleton node, ?_⟩
    intro p hp q hq heq
    rw [List.mem_singleton] at hq
    exact hnew (hq ▸ heq ▸ hp)
  · intro p hp hpnode
    have hplast : p ≠ last := fun heq => hp (by
      rw [hsplit, heq]
      exact List.mem_append_right _ List.mem_cons_self)
    exact (Function.update_of_ne hpnode ..).trans
      (Function.update_of_ne hplast ..)

/-- A node of the cycle leaves it, and the others keep their order. -/
theorem Cycle.del {before after : List P}
    (h : Cycle links head (before ++ node :: after)) :
    ∃ links', links.del node = some links' ∧
      Cycle links' head (before ++ after) ∧
      ∀ p, p ∉ head :: before → links'.next p = links.next p := by
  obtain ⟨front, p, q, back, hfront, hback, hp, hpnode, hnodeq, hq⟩ := h.around
  have hnodup := h.nodup
  rw [← List.cons_append, List.nodup_append] at hnodup
  obtain ⟨hbefore, hafter, hdisjoint⟩ := hnodup
  have hlast := h.nodup_after
  rw [hback] at hlast
  obtain ⟨hnode, hback'⟩ := List.nodup_cons.mp hlast
  have hqnode : node ≠ q := fun heq => hnode (heq ▸ List.mem_cons_self)
  have hqback : q ∉ back := (List.nodup_cons.mp hback').1
  have hqbefore : q ∉ before := by
    intro hmem
    have hqmem : q ∈ after ++ [head] := hback ▸ List.mem_cons_self
    rcases List.mem_append.mp hqmem with hqafter | hqhead
    · exact hdisjoint q (List.mem_cons_of_mem _ hmem) q
        (List.mem_cons_of_mem _ hqafter) rfl
    · rw [List.mem_singleton] at hqhead
      exact (List.nodup_cons.mp hbefore).1 (hqhead ▸ hmem)
  have hpafter : p ∉ after := fun hmem =>
    hdisjoint p (hfront ▸ List.mem_append_right _ List.mem_cons_self) p
      (List.mem_cons_of_mem _ hmem) rfl
  have hpfront : p ∉ front := by
    rw [hfront] at hbefore
    exact fun hmem => List.disjoint_of_nodup_append hbefore hmem
      List.mem_cons_self
  refine ⟨⟨Function.update links.next p (some q),
    Function.update links.prev q (some p)⟩, ?_, ⟨?_, ?_⟩, ?_⟩
  · simp only [Links.del, hnodeq.next, hpnode.prev, Option.bind_eq_bind,
      Option.bind_some, Function.update_of_ne hqnode]
  · rw [show head :: (before ++ after) ++ [head] = front ++ p :: q :: back by
      rw [← List.cons_append, hfront, ← hback]
      simp]
    refine List.isChain_append_cons_cons.mpr ⟨?_,
      ⟨Function.update_self .., Function.update_self ..⟩, ?_⟩
    · refine joined_congr hp ?_ ?_
      · intro r hr
        rw [List.dropLast_concat] at hr
        exact Function.update_of_ne (ne_of_mem_of_not_mem hr hpfront) ..
      · intro r hr
        rw [← hfront, List.tail_cons] at hr
        exact Function.update_of_ne (ne_of_mem_of_not_mem hr hqbefore) ..
    · refine joined_congr hq ?_ ?_
      · intro r hr
        rw [← hback, List.dropLast_concat] at hr
        exact Function.update_of_ne (ne_of_mem_of_not_mem hr hpafter) ..
      · intro r hr
        exact Function.update_of_ne (ne_of_mem_of_not_mem hr hqback) ..
  · rw [← List.cons_append, List.nodup_append]
    exact ⟨hbefore, (List.nodup_cons.mp hafter).2, fun a ha b hb =>
      hdisjoint a ha b (List.mem_cons_of_mem _ hb)⟩
  · intro r hr
    have hrp : r ≠ p := fun heq => hr (by
      rw [hfront, heq]
      exact List.mem_append_right _ List.mem_cons_self)
    exact Function.update_of_ne hrp ..

/-- A node without a successor cannot be taken out. -/
theorem del_of_null (h : links.next node = none) : links.del node = none := by
  rw [Links.del, h]
  rfl

end Operations

end CircList

end Barley
