/-
The gap-free run at the front of a list of segments: every segment of it starts
where the one before it stops.
-/
import Barley.Segments

namespace Barley

namespace Segments

variable {A : Type} (start stop : A → Nat)

/-- The segments that follow on from position `x` without a gap. -/
def run : Nat → List A → List A
  | _, [] => []
  | x, segment :: rest =>
      if start segment = x then segment :: run (stop segment) rest else []

/-- The position at which the run ends. -/
def runEnd : Nat → List A → Nat
  | x, [] => x
  | x, segment :: rest =>
      if start segment = x then runEnd (stop segment) rest else x

/-- What comes after the run. -/
def behind (x : Nat) (segments : List A) : List A :=
  segments.drop (run start stop x segments).length

/-- All positions from `x` to `e` are covered, and `e` is not. -/
structure EndsAt (segments : List A) (x e : Nat) : Prop where
  le : x ≤ e
  covered : ∀ y, x ≤ y → y < e → Covers start stop segments y
  free : ¬ Covers start stop segments e

variable {start stop} {segments rest : List A} {segment : A} {x e : Nat}

theorem EndsAt.unique {e' : Nat} (h : EndsAt start stop segments x e)
    (h' : EndsAt start stop segments x e') : e = e' := by
  rcases Nat.lt_trichotomy e e' with hlt | heq | hlt
  · exact absurd (h'.covered e h.le hlt) h.free
  · exact heq
  · exact absurd (h.covered e' h'.le hlt) h'.free

theorem not_covers_of_le (h : ∀ segment ∈ segments, x < start segment) :
    ¬ Covers start stop segments x := by
  rintro ⟨segment, hmem, hle, -⟩
  exact Nat.not_lt.mpr hle (h segment hmem)

/-- The run of an ordered list ends at the first position that is not
covered. -/
theorem runEnd_endsAt (hordered : Ordered start stop segments)
    (hproper : Proper start stop segments)
    (hx : ∀ segment ∈ segments, x ≤ start segment) :
    EndsAt start stop segments x (runEnd start stop x segments) := by
  induction segments generalizing x with
  | nil =>
      refine ⟨Nat.le_refl x, fun y hle hlt => ?_, covers_nil⟩
      exact absurd hle (Nat.not_le.mpr hlt)
  | cons segment rest ih =>
      obtain ⟨hfirst, hrest⟩ := List.pairwise_cons.mp hordered
      have hne := hproper segment List.mem_cons_self
      have hle := hx segment List.mem_cons_self
      rw [runEnd]
      split
      case isTrue heq =>
        subst heq
        obtain ⟨hle, hcovered, hfree⟩ := ih hrest
          (hproper.sublist (List.sublist_cons_self segment rest)) hfirst
        refine ⟨by omega, ?_, ?_⟩
        · intro y hy hlt
          rw [covers_cons]
          by_cases hstop : y < stop segment
          · exact .inl ⟨hy, hstop⟩
          · exact .inr (hcovered y (Nat.not_lt.mp hstop) hlt)
        · rw [covers_cons]
          rintro (⟨-, hlt⟩ | hcovers)
          · omega
          · exact hfree hcovers
      case isFalse hgap =>
        refine ⟨Nat.le_refl x, fun y hy hlt =>
          absurd hy (Nat.not_le.mpr hlt), not_covers_of_le ?_⟩
        intro other hmem
        rcases List.mem_cons.mp hmem with rfl | hmem
        · omega
        · have hnext := hfirst other hmem
          omega

/-- The segments of the run are those that stop at or before its end. -/
theorem run_eq_takeWhile (hordered : Ordered start stop segments)
    (hproper : Proper start stop segments)
    (hx : ∀ segment ∈ segments, x ≤ start segment) :
    run start stop x segments = segments.takeWhile fun segment =>
      stop segment ≤ runEnd start stop x segments := by
  induction segments generalizing x with
  | nil => rfl
  | cons segment rest ih =>
      obtain ⟨hfirst, hrest⟩ := List.pairwise_cons.mp hordered
      have hproper' := hproper.sublist (List.sublist_cons_self segment rest)
      have hne := hproper segment List.mem_cons_self
      have hle := hx segment List.mem_cons_self
      rw [run, runEnd, List.takeWhile_cons]
      split
      case isTrue heq =>
        have hstop := (runEnd_endsAt hrest hproper' hfirst).le
        rw [ih hrest hproper' hfirst]
        simp only [hstop, decide_true, if_true]
      case isFalse hgap =>
        have hfar : ¬ stop segment ≤ x := by omega
        simp only [hfar, decide_false, Bool.false_eq_true, if_false]

/-- What comes after the run is what is left when its segments are dropped. -/
theorem behind_eq_dropWhile (hordered : Ordered start stop segments)
    (hproper : Proper start stop segments)
    (hx : ∀ segment ∈ segments, x ≤ start segment) :
    behind start stop x segments = segments.dropWhile fun segment =>
      stop segment ≤ runEnd start stop x segments := by
  have hsplit := List.takeWhile_append_dropWhile
    (p := fun segment => decide (stop segment ≤ runEnd start stop x segments))
    (l := segments)
  rw [← run_eq_takeWhile hordered hproper hx] at hsplit
  rw [behind]
  exact (congrArg (List.drop _) hsplit).symm.trans (List.drop_left ..)

end Segments

end Barley
