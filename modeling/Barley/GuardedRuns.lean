/-
Runs of a step function that may fail.  A property holds all along a run
exactly when every call of it meets a condition, if a single step is like that
and the condition keeps an invariant.
-/
import Mathlib.Tactic.Common

namespace Barley

namespace GuardedRuns

variable {S C : Type} (step : S → C → Option S)

/-- The property holds now and after each of the calls, and no call fails. -/
def Always (good : S → Prop) : S → List C → Prop
  | s, [] => good s
  | s, call :: rest =>
      good s ∧ ∃ next, step s call = some next ∧ Always good next rest

/-- Each call meets the condition in the state in which it is made. -/
def Each (allows : S → C → Prop) : S → List C → Prop
  | _, [] => True
  | s, call :: rest =>
      allows s call ∧ ∀ next, step s call = some next → Each allows next rest

variable {step} {good : S → Prop} {allows : S → C → Prop} {s : S}
  {calls : List C}

theorem Always.last (h : Always step good s calls) :
    ∃ final, calls.foldlM step s = some final ∧ good final := by
  induction calls generalizing s with
  | nil => exact ⟨s, rfl, h⟩
  | cons call rest ih =>
      obtain ⟨_, next, hnext, halways⟩ := h
      rw [List.foldlM_cons, hnext]
      exact ih halways

/-- Each step of a run has a property that tells what was called, and no call
fails. -/
def Stepwise (step : S → C → Option S) (does : S → C → S → Prop) :
    S → List C → Prop
  | _, [] => True
  | s, call :: rest =>
      ∃ next, step s call = some next ∧ does s call next ∧
        Stepwise step does next rest

theorem stepwise_iff_each {does : S → C → S → Prop} (inv : S → Prop)
    (valid : C → Prop)
    (hstep : ∀ s call, valid call → inv s →
      ((∃ next, step s call = some next ∧ does s call next) ↔ allows s call))
    (hinv : ∀ s call next, valid call → inv s → allows s call →
      step s call = some next → inv next)
    (hs : inv s) (hvalid : ∀ call ∈ calls, valid call) :
    Stepwise step does s calls ↔ Each step allows s calls := by
  induction calls generalizing s with
  | nil => exact Iff.rfl
  | cons call rest ih =>
      have hcall := hvalid call List.mem_cons_self
      have hrest := fun other hother =>
        hvalid other (List.mem_cons_of_mem call hother)
      constructor
      · rintro ⟨next, hnext, hdoes, hothers⟩
        have hallows := (hstep s call hcall hs).mp ⟨next, hnext, hdoes⟩
        refine ⟨hallows, fun other hother => ?_⟩
        rw [hnext, Option.some.injEq] at hother
        subst hother
        exact (ih (hinv s call next hcall hs hallows hnext) hrest).mp hothers
      · rintro ⟨hallows, heach⟩
        obtain ⟨next, hnext, hdoes⟩ := (hstep s call hcall hs).mpr hallows
        exact ⟨next, hnext, hdoes,
          (ih (hinv s call next hcall hs hallows hnext) hrest).mpr
            (heach next hnext)⟩

/-- Two conditions on a call are met by the same runs if they agree wherever an
invariant holds.  The invariant may count the calls that remain. -/
theorem each_iff_each {safe : S → C → Prop} (inv : S → List C → Prop)
    (hcall : ∀ s call rest, inv s (call :: rest) →
      (safe s call ↔ allows s call))
    (hinv : ∀ s call rest next, inv s (call :: rest) → allows s call →
      step s call = some next → inv next rest)
    (hs : inv s calls) : Each step safe s calls ↔ Each step allows s calls := by
  induction calls generalizing s with
  | nil => exact Iff.rfl
  | cons call rest ih =>
      rw [Each, Each, hcall s call rest hs]
      refine and_congr_right fun hallows => ?_
      exact forall_congr' fun next => forall_congr' fun hnext =>
        ih (hinv s call rest next hs hallows hnext)

/-- What holds all along a run is a property of each of its steps. -/
theorem always_iff_stepwise :
    Always step good s calls ↔
      good s ∧ Stepwise step (fun _ _ next => good next) s calls := by
  induction calls generalizing s with
  | nil => exact (and_iff_left trivial).symm
  | cons call rest ih =>
      refine and_congr_right fun _ => exists_congr fun next => ?_
      rw [ih]

/-- From what one step does to what a run does. -/
theorem always_iff_each (inv : S → Prop) (valid : C → Prop)
    (hgood : ∀ s, inv s → good s)
    (hstep : ∀ s call, valid call → inv s →
      ((∃ next, step s call = some next ∧ good next) ↔ allows s call))
    (hinv : ∀ s call next, valid call → inv s → allows s call →
      step s call = some next → inv next)
    (hs : inv s) (hvalid : ∀ call ∈ calls, valid call) :
    Always step good s calls ↔ Each step allows s calls := by
  rw [always_iff_stepwise, and_iff_right (hgood s hs)]
  exact stepwise_iff_each inv valid hstep hinv hs hvalid

end GuardedRuns

end Barley
