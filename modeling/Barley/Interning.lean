/-
Interning a stream of values into a bounded table.  A value that is already
listed keeps its index; a new value is appended while the table has room.
Nothing here knows what is interned: the classifier uses it at rule bitmaps.
-/
import Mathlib.Data.Finset.Card
import Mathlib.Data.List.Nodup
import Mathlib.Tactic.Common

namespace Barley

universe u

variable {A : Type u} [DecidableEq A]

/-- Look a value up and append it when it is new.  `none` is the attempt to
append to a table that already holds `cap` values. -/
def intern (cap : Nat) (table : List A) (value : A) :
    Option (List A × Nat) :=
  match table.idxOf? value with
  | some index => some (table, index)
  | none =>
      if table.length < cap then some (table ++ [value], table.length)
      else none

/-- Intern a whole stream, keeping the index of every element. -/
def internAll (cap : Nat) : List A → List A → Option (List A × List Nat)
  | table, [] => some (table, [])
  | table, value :: rest =>
      (intern cap table value).bind fun step =>
        (internAll cap step.1 rest).map fun done =>
          (done.1, step.2 :: done.2)

theorem intern_of_mem (cap : Nat) {table : List A} {value : A}
    (hmem : value ∈ table) :
    ∃ index, intern cap table value = some (table, index) ∧
      table[index]? = some value := by
  cases hfind : table.idxOf? value with
  | none => exact absurd hmem (List.idxOf?_eq_none_iff.mp hfind)
  | some index =>
      refine ⟨index, by simp [intern, hfind], ?_⟩
      rw [List.idxOf?, List.findIdx?_eq_some_iff_getElem] at hfind
      obtain ⟨hlt, heq, _⟩ := hfind
      rw [List.getElem?_eq_getElem hlt]
      simpa using heq

theorem intern_of_not_mem (cap : Nat) {table : List A} {value : A}
    (hmem : value ∉ table) :
    intern cap table value =
      if table.length < cap then some (table ++ [value], table.length)
      else none := by
  have hfind : table.idxOf? value = none :=
    List.idxOf?_eq_none_iff.mpr hmem
  simp [intern, hfind]

/-- The two ways one value can be interned. -/
theorem intern_cases {cap : Nat} {table next : List A} {value : A}
    {index : Nat} (h : intern cap table value = some (next, index)) :
    (next = table ∧ value ∈ table ∧ table[index]? = some value) ∨
      (value ∉ table ∧ table.length < cap ∧ next = table ++ [value] ∧
        index = table.length) := by
  by_cases hmem : value ∈ table
  · obtain ⟨found, heq, hget⟩ := intern_of_mem cap hmem
    rw [heq, Option.some.injEq, Prod.mk.injEq] at h
    obtain ⟨rfl, rfl⟩ := h
    exact Or.inl ⟨rfl, hmem, hget⟩
  · rw [intern_of_not_mem cap hmem] at h
    split at h
    · rw [Option.some.injEq, Prod.mk.injEq] at h
      obtain ⟨rfl, rfl⟩ := h
      exact Or.inr ⟨hmem, ‹_›, rfl, rfl⟩
    · cases h

/-- What a completed interning step leaves behind. -/
theorem intern_spec {cap : Nat} {table next : List A} {value : A}
    {index : Nat} (h : intern cap table value = some (next, index)) :
    table <+: next ∧ next[index]? = some value ∧
      (∀ other, other ∈ next ↔ other ∈ table ∨ other = value) := by
  rcases intern_cases h with ⟨rfl, hmem, hget⟩ | ⟨_, _, rfl, rfl⟩
  · refine ⟨List.prefix_rfl, hget, fun other => ?_⟩
    constructor
    · exact Or.inl
    · rintro (hother | rfl)
      · exact hother
      · exact hmem
  · exact ⟨List.prefix_append _ _, by simp, by simp⟩

theorem intern_nodup {cap : Nat} {table next : List A} {value : A}
    {index : Nat} (h : intern cap table value = some (next, index))
    (hnodup : table.Nodup) : next.Nodup := by
  rcases intern_cases h with ⟨rfl, _, _⟩ | ⟨hmem, _, rfl, _⟩
  · exact hnodup
  · rw [List.nodup_append']
    exact ⟨hnodup, List.nodup_singleton value, by simpa using hmem⟩

theorem intern_length_le {cap : Nat} {table next : List A} {value : A}
    {index : Nat} (h : intern cap table value = some (next, index))
    (hlength : table.length ≤ cap) : next.length ≤ cap := by
  rcases intern_cases h with ⟨rfl, _, _⟩ | ⟨_, hlt, rfl, _⟩
  · exact hlength
  · simpa [Nat.succ_le_iff] using hlt

/-- One step of a completed run. -/
theorem internAll_cons_eq_some {cap : Nat} {table final : List A} {value : A}
    {rest : List A} {indices : List Nat}
    (h : internAll cap table (value :: rest) = some (final, indices)) :
    ∃ next index tail, intern cap table value = some (next, index) ∧
      internAll cap next rest = some (final, tail) ∧
      indices = index :: tail := by
  simp only [internAll, Option.bind_eq_some_iff, Option.map_eq_some_iff,
    Prod.mk.injEq, Prod.exists] at h
  obtain ⟨next, index, hstep, _, tail, htail, rfl, rfl⟩ := h
  exact ⟨next, index, tail, hstep, htail, rfl⟩

/-- A completed run extends the table by exactly the streamed values. -/
theorem internAll_prefix_mem {cap : Nat} {table final : List A}
    {stream : List A} {indices : List Nat}
    (h : internAll cap table stream = some (final, indices)) :
    table <+: final ∧
      ∀ other, other ∈ final ↔ other ∈ table ∨ other ∈ stream := by
  induction stream generalizing table indices with
  | nil =>
      simp only [internAll, Option.some.injEq, Prod.mk.injEq] at h
      obtain ⟨rfl, rfl⟩ := h
      exact ⟨List.prefix_rfl, by simp⟩
  | cons value rest ih =>
      obtain ⟨next, index, tail, hstep, htail, rfl⟩ :=
        internAll_cons_eq_some h
      obtain ⟨hbegins, _, hmem⟩ := intern_spec hstep
      obtain ⟨hbegins', hmem'⟩ := ih htail
      refine ⟨hbegins.trans hbegins', fun other => ?_⟩
      rw [hmem' other, hmem other, List.mem_cons, or_assoc]

theorem internAll_nodup {cap : Nat} {table final : List A}
    {stream : List A} {indices : List Nat}
    (h : internAll cap table stream = some (final, indices))
    (hnodup : table.Nodup) : final.Nodup := by
  induction stream generalizing table indices with
  | nil =>
      simp only [internAll, Option.some.injEq, Prod.mk.injEq] at h
      exact h.1 ▸ hnodup
  | cons value rest ih =>
      obtain ⟨next, index, tail, hstep, htail, rfl⟩ :=
        internAll_cons_eq_some h
      exact ih htail (intern_nodup hstep hnodup)

/-- The index stored for a stream position leads back to its value. -/
theorem internAll_index {cap : Nat} {table final : List A}
    {stream : List A} {indices : List Nat}
    (h : internAll cap table stream = some (final, indices))
    {position : Nat} {value : A} (hvalue : stream[position]? = some value) :
    ∃ index, indices[position]? = some index ∧
      final[index]? = some value := by
  induction stream generalizing table indices position with
  | nil => simp at hvalue
  | cons head rest ih =>
      obtain ⟨next, index, tail, hstep, htail, rfl⟩ :=
        internAll_cons_eq_some h
      cases position with
      | zero =>
          rw [List.getElem?_cons_zero, Option.some.injEq] at hvalue
          subst hvalue
          obtain ⟨_, hget, _⟩ := intern_spec hstep
          obtain ⟨hbegins, _⟩ := internAll_prefix_mem htail
          obtain ⟨suffix, rfl⟩ := hbegins
          obtain ⟨hlt, _⟩ := List.getElem?_eq_some_iff.mp hget
          exact ⟨index, rfl, by rw [List.getElem?_append_left hlt, hget]⟩
      | succ position =>
          rw [List.getElem?_cons_succ] at hvalue
          obtain ⟨found, hfound, hget⟩ := ih htail hvalue
          exact ⟨found, by simpa using hfound, hget⟩

theorem internAll_card {cap : Nat} {table final : List A}
    {stream : List A} {indices : List Nat}
    (h : internAll cap table stream = some (final, indices))
    (hnodup : table.Nodup) :
    final.length = (table ++ stream).toFinset.card := by
  rw [← List.toFinset_card_of_nodup (internAll_nodup h hnodup)]
  congr 1
  ext other
  simp [(internAll_prefix_mem h).2 other]

theorem internAll_length_le {cap : Nat} {table final : List A}
    {stream : List A} {indices : List Nat}
    (h : internAll cap table stream = some (final, indices))
    (hlength : table.length ≤ cap) : final.length ≤ cap := by
  induction stream generalizing table indices with
  | nil =>
      simp only [internAll, Option.some.injEq, Prod.mk.injEq] at h
      exact h.1 ▸ hlength
  | cons value rest ih =>
      obtain ⟨next, index, tail, hstep, htail, rfl⟩ :=
        internAll_cons_eq_some h
      exact ih htail (intern_length_le hstep hlength)

/-- A run that ends early has met more than `cap` different values. -/
theorem internAll_eq_none_card {cap : Nat} {table stream : List A}
    (h : internAll cap table stream = none) (hnodup : table.Nodup)
    (hlength : table.length ≤ cap) :
    cap < (table ++ stream).toFinset.card := by
  induction stream generalizing table with
  | nil => simp [internAll] at h
  | cons value rest ih =>
      cases hstep : intern cap table value with
      | none =>
          have hmem : value ∉ table := by
            intro hmem
            obtain ⟨index, heq, _⟩ := intern_of_mem cap hmem
            rw [heq] at hstep
            cases hstep
          rw [intern_of_not_mem cap hmem] at hstep
          have hfull : cap ≤ table.length := by
            by_contra hlt
            simp [Nat.lt_of_not_ge hlt] at hstep
          have hnodup' : (table ++ [value]).Nodup := by
            rw [List.nodup_append']
            exact ⟨hnodup, List.nodup_singleton value, by simpa using hmem⟩
          have hsub : (table ++ [value]).toFinset ⊆
              (table ++ value :: rest).toFinset := by
            intro other
            simp only [List.toFinset_append, Finset.mem_union,
              List.mem_toFinset, List.mem_cons]
            tauto
          have hcard := Finset.card_le_card hsub
          rw [List.toFinset_card_of_nodup hnodup', List.length_append,
            List.length_singleton] at hcard
          exact Nat.lt_of_lt_of_le (Nat.lt_succ_of_le hfull) hcard
      | some step =>
          obtain ⟨next, index⟩ := step
          have htail : internAll cap next rest = none := by
            simpa [internAll, hstep] using h
          have hcard := ih htail (intern_nodup hstep hnodup)
            (intern_length_le hstep hlength)
          have hsame : (next ++ rest).toFinset =
              (table ++ value :: rest).toFinset := by
            ext other
            simp only [List.toFinset_append, Finset.mem_union,
              List.mem_toFinset, (intern_spec hstep).2.2 other,
              List.mem_cons, or_assoc]
          rwa [hsame] at hcard

/-- Starting from an empty table, the stream fits exactly when it has at most
`cap` different values. -/
theorem internAll_nil_isSome_iff (cap : Nat) (stream : List A) :
    (internAll cap [] stream).isSome ↔ stream.toFinset.card ≤ cap := by
  constructor
  · intro h
    obtain ⟨⟨final, indices⟩, hrun⟩ := Option.isSome_iff_exists.mp h
    have hcard := internAll_card hrun List.nodup_nil
    have hle := internAll_length_le hrun (Nat.zero_le cap)
    rw [List.nil_append] at hcard
    exact hcard ▸ hle
  · intro hcard
    by_contra hnone
    rw [Option.not_isSome_iff_eq_none] at hnone
    have hlt := internAll_eq_none_card hnone List.nodup_nil (Nat.zero_le cap)
    rw [List.nil_append] at hlt
    exact Nat.not_lt_of_ge hcard hlt

end Barley
