/-
Items that are given out and come back.  The entries are listed with the latest
first; an item may only go out again when it has come back in between.
-/
import Mathlib.Data.List.Basic
import Mathlib.Tactic.Common

namespace Barley

namespace Ledger

variable {A : Type}

/-- An item goes out, it comes back, or something else happens. -/
inductive Entry (A : Type) where
  | out (item : A)
  | back (item : A)
  | note

/-- Between two times that an item goes out, it comes back. -/
def NoRepeat (entries : List (Entry A)) : Prop :=
  ∀ later between earlier item,
    entries = later ++ .out item :: (between ++ .out item :: earlier) →
    .back item ∈ between

/-- What has gone out and not come back since is held. -/
def Covers (held : List A) (entries : List (Entry A)) : Prop :=
  ∀ later earlier item, entries = later ++ .out item :: earlier →
    .back item ∉ later → item ∈ held

variable {held : List A} {entries : List (Entry A)}

theorem noRepeat_nil : NoRepeat ([] : List (Entry A)) := by
  intro later between earlier item h
  exact absurd h.symm (List.append_ne_nil_of_right_ne_nil _
    (List.cons_ne_nil _ _))

theorem covers_nil : Covers held ([] : List (Entry A)) := by
  intro later earlier item h
  exact absurd h.symm (List.append_ne_nil_of_right_ne_nil _
    (List.cons_ne_nil _ _))

/-- An entry by which nothing goes out keeps the order. -/
theorem NoRepeat.cons (h : NoRepeat entries) {entry : Entry A}
    (hentry : ∀ item, entry ≠ .out item) : NoRepeat (entry :: entries) := by
  intro later between earlier item heq
  cases later with
  | nil => exact absurd (List.cons.inj heq).1 (hentry item)
  | cons first later =>
      exact h later between earlier item (List.cons.inj heq).2

/-- An item that is not held may go out. -/
theorem NoRepeat.out (h : NoRepeat entries) (hcovers : Covers held entries)
    {item : A} (hnot : item ∉ held) : NoRepeat (.out item :: entries) := by
  intro later between earlier other heq
  cases later with
  | nil =>
      obtain ⟨hentry, hrest⟩ := List.cons.inj heq
      cases hentry
      by_contra hback
      exact hnot (hcovers between earlier item hrest hback)
  | cons first later =>
      exact h later between earlier other (List.cons.inj heq).2

theorem Covers.note (h : Covers held entries) :
    Covers held (.note :: entries) := by
  intro later earlier item heq hback
  cases later with
  | nil => cases (List.cons.inj heq).1
  | cons first later =>
      exact h later earlier item (List.cons.inj heq).2
        fun hmem => hback (List.mem_cons_of_mem _ hmem)

theorem Covers.out (h : Covers held entries) (item : A) :
    Covers (item :: held) (.out item :: entries) := by
  intro later earlier other heq hback
  cases later with
  | nil =>
      cases (List.cons.inj heq).1
      exact List.mem_cons_self
  | cons first later =>
      exact List.mem_cons_of_mem _ (h later earlier other
        (List.cons.inj heq).2 fun hmem => hback (List.mem_cons_of_mem _ hmem))

theorem Covers.back [DecidableEq A] (h : Covers held entries) (item : A) :
    Covers (held.erase item) (.back item :: entries) := by
  intro later earlier other heq hback
  cases later with
  | nil => cases (List.cons.inj heq).1
  | cons first later =>
      obtain ⟨rfl, hrest⟩ := List.cons.inj heq
      have hne : other ≠ item := by
        rintro rfl
        exact hback List.mem_cons_self
      exact (List.mem_erase_of_ne hne).mpr (h later earlier other hrest
        fun hmem => hback (List.mem_cons_of_mem _ hmem))

end Ledger

end Barley
