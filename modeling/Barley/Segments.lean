/-
Lists of half-open segments of natural numbers, such as the byte ranges of a
stream that have arrived.  In an ordered list each segment ends before the
next one starts.
-/
import Mathlib.Tactic.Common
import Mathlib.Data.List.Basic

namespace Barley

namespace Segments

variable {A : Type} (start stop : A → Nat)

/-- Segments one after the other and without overlap. -/
def Ordered (segments : List A) : Prop :=
  segments.Pairwise fun first second => stop first ≤ start second

/-- No segment is empty. -/
def Proper (segments : List A) : Prop :=
  ∀ segment ∈ segments, start segment < stop segment

/-- Position `x` lies in one of the segments. -/
def Covers (segments : List A) (x : Nat) : Prop :=
  ∃ segment ∈ segments, start segment ≤ x ∧ x < stop segment

variable {start stop} {segments front back : List A} {segment : A} {x : Nat}

/-- A segment fits between two parts of an ordered list. -/
theorem Ordered.insert (h : Ordered start stop (front ++ back))
    (hfront : ∀ other ∈ front, stop other ≤ start segment)
    (hback : ∀ other ∈ back, stop segment ≤ start other) :
    Ordered start stop (front ++ segment :: back) := by
  obtain ⟨hfirst, hsecond, hacross⟩ := List.pairwise_append.mp h
  refine List.pairwise_append.mpr
    ⟨hfirst, List.pairwise_cons.mpr ⟨hback, hsecond⟩, ?_⟩
  intro first hmem second hmem'
  rcases List.mem_cons.mp hmem' with rfl | hmem'
  · exact hfront first hmem
  · exact hacross first hmem second hmem'

/-- Every segment is before, equal to or behind a given one. -/
theorem Ordered.around (h : Ordered start stop (front ++ segment :: back))
    {other : A} (hmem : other ∈ front ++ segment :: back) :
    stop other ≤ start segment ∨ other = segment ∨
      stop segment ≤ start other := by
  obtain ⟨_, hrest, hacross⟩ := List.pairwise_append.mp h
  rcases List.mem_append.mp hmem with hmem | hmem
  · exact .inl (hacross other hmem segment List.mem_cons_self)
  · rcases List.mem_cons.mp hmem with rfl | hmem
    · exact .inr (.inl rfl)
    · exact .inr (.inr ((List.pairwise_cons.mp hrest).1 other hmem))

/-- Ordered segments that are not empty are strictly sorted by their starts. -/
theorem Ordered.starts (h : Ordered start stop segments)
    (hproper : Proper start stop segments) :
    segments.Pairwise fun first second => start first < start second := by
  induction segments with
  | nil => exact List.Pairwise.nil
  | cons segment rest ih =>
      obtain ⟨hfirst, hrest⟩ := List.pairwise_cons.mp h
      refine List.pairwise_cons.mpr ⟨fun other hmem => ?_,
        ih hrest fun other hmem =>
          hproper other (List.mem_cons_of_mem segment hmem)⟩
      exact Nat.lt_of_lt_of_le (hproper segment List.mem_cons_self)
        (hfirst other hmem)

theorem Proper.sublist (h : Proper start stop segments)
    (hsub : front.Sublist segments) : Proper start stop front :=
  fun segment hmem => h segment (hsub.subset hmem)

@[simp] theorem covers_nil : ¬ Covers start stop [] x := by
  simp [Covers]

@[simp] theorem covers_cons :
    Covers start stop (segment :: segments) x ↔
      (start segment ≤ x ∧ x < stop segment) ∨
        Covers start stop segments x := by
  simp [Covers]

@[simp] theorem covers_append :
    Covers start stop (front ++ back) x ↔
      Covers start stop front x ∨ Covers start stop back x := by
  simp only [Covers, List.mem_append]
  constructor
  · rintro ⟨s, hs | hs, hx⟩
    · exact .inl ⟨s, hs, hx⟩
    · exact .inr ⟨s, hs, hx⟩
  · rintro (⟨s, hs, hx⟩ | ⟨s, hs, hx⟩)
    · exact ⟨s, .inl hs, hx⟩
    · exact ⟨s, .inr hs, hx⟩

end Segments

end Barley
