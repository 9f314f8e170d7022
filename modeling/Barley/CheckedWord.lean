/-
A shared word against which several parties check values.  A party reads the
word once, and only then counts its verdict and stores the value, each in a step
of its own; in between the word may have changed.
-/
import Barley.Registers
import Mathlib.Algebra.BigOperators.Ring.Finset
import Mathlib.Data.List.Iterate
import Mathlib.Data.Nat.Cast.Defs

namespace Barley

namespace CheckedWord

/-- What a party does after it has read the word. -/
inductive Act (V S : Type) where
  | store (value : V)
  | count (stat : S)

namespace Act

variable {V S : Type}

def stat? : Act V S → Option S
  | store _ => none
  | count stat => some stat

/-- The word after the act. -/
def word (word : V) : Act V S → V
  | store value => value
  | count _ => word

end Act

/-- A check counts one verdict, and stores nothing but the value. -/
structure Check (V S : Type) where
  acts : V → V → List (Act V S)
  verdict : V → V → S
  counts : ∀ word value, (acts word value).filterMap Act.stat? =
    [verdict word value]
  stores : ∀ word value other, Act.store other ∈ acts word value →
    other = value

/-- The word after a check that nobody interrupts. -/
def Check.next {V S : Type} (check : Check V S) (word value : V) : V :=
  (check.acts word value).foldl Act.word word

/-- The word, the counters, and what each party has yet to do. -/
structure State (P V S M : Type) where
  word : V
  regs : S → M
  acts : P → List (Act V S)

inductive Event (P V : Type) where
  | check (party : P) (value : V)
  | act (party : P)
  | set (value : V)

/-- A value that was checked, with the verdict, or that the word was set to. -/
abbrev Entry (V S : Type) := V × Option S

variable {P V S M : Type} [DecidableEq P] [DecidableEq S]

namespace State

/-- No check is going on. -/
def Quiet (s : State P V S M) : Prop := ∀ party, s.acts party = []

variable [AddCommMonoidWithOne M] (check : Check V S) (s : State P V S M)

def step : Event P V → Option (State P V S M)
  | .check party value =>
      match s.acts party with
      | [] => some { s with
          acts := Function.update s.acts party (check.acts s.word value) }
      | _ :: _ => none
  | .act party =>
      match s.acts party with
      | [] => none
      | act :: rest => some {
          word := act.word s.word
          regs := act.stat?.elim s.regs fun stat =>
            Registers.add s.regs (stat, 1)
          acts := Function.update s.acts party rest }
  | .set value => some { s with word := value }

/-- What an event adds to the history. -/
def entry : Event P V → List (Entry V S)
  | .check _ value => [(value, some (check.verdict s.word value))]
  | .act _ => []
  | .set value => [(value, none)]

end State

variable [AddCommMonoidWithOne M]

/-- A state before anything has been checked. -/
def start (value : V) : State P V S M := ⟨value, fun _ => 0, fun _ => []⟩

/-- The runs with a history, of events that may happen where they do. -/
inductive Run (check : Check V S) (may : State P V S M → Event P V → Prop)
    (value : V) : List (Entry V S) → State P V S M → Prop where
  | start : Run check may value [(value, none)] (start value)
  | step {history : List (Entry V S)} {s next : State P V S M}
      (event : Event P V) (run : Run check may value history s)
      (allowed : may s event) (h : s.step check event = some next) :
      Run check may value (history ++ s.entry check event) next

/-- The history and the state after some events. -/
def execute (check : Check V S) (value : V) (events : List (Event P V)) :
    Option (List (Entry V S) × State P V S M) :=
  events.foldlM (fun found event => (found.2.step check event).map fun next =>
    (found.1 ++ found.2.entry check event, next)) ([(value, none)], start value)

/-- Every check is over before the next one, or a set, begins. -/
def Serially (s : State P V S M) (event : Event P V) : Prop :=
  (∃ party, event = .act party) ∨ s.Quiet

variable {check : Check V S} {may : State P V S M → Event P V → Prop}
  {first value : V} {history before after : List (Entry V S)}
  {s next : State P V S M} {event : Event P V}

section Steps

/-- What a step does. -/
theorem State.step_cases (h : s.step check event = some next) :
    (∃ party value, event = .check party value ∧ s.acts party = [] ∧
      next = { s with
        acts := Function.update s.acts party (check.acts s.word value) }) ∨
    (∃ party act rest, event = .act party ∧ s.acts party = act :: rest ∧
      next = {
        word := act.word s.word
        regs := act.stat?.elim s.regs fun stat =>
          Registers.add s.regs (stat, 1)
        acts := Function.update s.acts party rest }) ∨
    ∃ value, event = .set value ∧ next = { s with word := value } := by
  cases event with
  | check party value =>
      cases hacts : s.acts party with
      | nil =>
          simp only [State.step, hacts] at h
          exact .inl ⟨party, value, rfl, hacts, (Option.some.inj h).symm⟩
      | cons act rest =>
          simp only [State.step, hacts] at h
          cases h
  | act party =>
      cases hacts : s.acts party with
      | nil =>
          simp only [State.step, hacts] at h
          cases h
      | cons act rest =>
          simp only [State.step, hacts] at h
          exact .inr (.inl ⟨party, act, rest, rfl, hacts,
            (Option.some.inj h).symm⟩)
  | set value => exact .inr (.inr ⟨value, rfl, (Option.some.inj h).symm⟩)

omit [DecidableEq P] [DecidableEq S] [AddCommMonoidWithOne M] in
/-- Where an element of a longer list may be. -/
theorem append_eq_middle {X : Type} {xs more before after : List X} {x : X}
    (h : xs ++ more = before ++ x :: after) :
    (∃ rest, xs = before ++ x :: rest) ∨ ∃ pre, before = xs ++ pre ∧
      more = pre ++ x :: after := by
  rcases List.append_eq_append_iff.mp h with ⟨pre, hbefore, hmore⟩ | ⟨rest, hxs, hrest⟩
  · exact .inr ⟨pre, hbefore, hmore⟩
  · cases rest with
    | nil =>
        right
        exact ⟨[], by simpa using hxs.symm, by simpa using hrest.symm⟩
    | cons other rest =>
        obtain ⟨rfl, _⟩ := List.cons.inj hrest
        exact .inl ⟨rest, hxs⟩

omit [DecidableEq P] [DecidableEq S] [AddCommMonoidWithOne M] in
/-- Only a check adds a verdict. -/
theorem State.entry_eq_middle {stat : S} {pre : List (Entry V S)}
    (h : s.entry check event = pre ++ (value, some stat) :: after) :
    ∃ party, event = .check party value ∧ pre = [] ∧
      check.verdict s.word value = stat := by
  have hpre : pre = [] ∧ after = [] := by
    have hlen := congrArg List.length h
    have hone : (s.entry check event).length ≤ 1 := by
      cases event <;> simp [State.entry]
    rw [hlen, List.length_append, List.length_cons] at hone
    constructor
    · exact List.length_eq_zero_iff.mp (by omega)
    · exact List.length_eq_zero_iff.mp (by omega)
  obtain ⟨rfl, rfl⟩ := hpre
  cases event with
  | check party checked =>
      simp only [State.entry, List.nil_append, List.cons.injEq, Prod.mk.injEq,
        Option.some.injEq, and_true] at h
      obtain ⟨rfl, hstat⟩ := h
      exact ⟨party, rfl, rfl, hstat⟩
  | act party => cases h
  | set other => cases h

end Steps

theorem run_of_execute {events : List (Event P V)}
    (h : execute check first events = some (history, s)) :
    Run check (fun _ _ => True) first history s := by
  have hrun : ∀ (events : List (Event P V))
      (found : List (Entry V S) × State P V S M),
      Run check (fun _ _ => True) first found.1 found.2 →
        events.foldlM (fun found event =>
          (found.2.step check event).map fun next =>
            (found.1 ++ found.2.entry check event, next)) found =
          some (history, s) → Run check (fun _ _ => True) first history s := by
    intro events
    induction events with
    | nil =>
        intro found hfound heq
        cases heq
        exact hfound
    | cons event events ih =>
        intro found hfound heq
        rw [List.foldlM_cons] at heq
        cases hstep : found.2.step check event with
        | none =>
            rw [hstep] at heq
            cases heq
        | some next =>
            rw [hstep] at heq
            exact ih _ (.step event hfound trivial hstep) heq
  exact hrun events _ .start h

section Interleaved

/-- The word, and what is yet to be stored to it, are from the history. -/
structure Known (history : List (Entry V S)) (s : State P V S M) : Prop where
  word : s.word ∈ history.map Prod.fst
  stores : ∀ party value, Act.store value ∈ s.acts party →
    value ∈ history.map Prod.fst

theorem Known.step (h : Known history s)
    (hstep : s.step check event = some next) :
    Known (history ++ s.entry check event) next := by
  have hold : ∀ {value}, value ∈ history.map Prod.fst →
      value ∈ (history ++ s.entry check event).map Prod.fst := by
    intro value hmem
    rw [List.map_append]
    exact List.mem_append_left _ hmem
  rcases State.step_cases hstep with ⟨party, value, rfl, hacts, rfl⟩ |
    ⟨party, act, rest, rfl, hacts, rfl⟩ | ⟨value, rfl, rfl⟩
  · constructor
    · exact hold h.word
    · intro other stored hmem
      by_cases hparty : other = party
      · rw [hparty] at hmem
        dsimp only at hmem
        rw [Function.update_self] at hmem
        rw [check.stores _ _ _ hmem]
        simp [State.entry]
      · dsimp only at hmem
        rw [Function.update_of_ne hparty] at hmem
        exact hold (h.stores _ _ hmem)
  · constructor
    · cases act with
      | store value =>
          exact hold (h.stores party value (by simp [hacts]))
      | count stat => exact hold h.word
    · intro other stored hmem
      dsimp only at hmem
      by_cases hparty : other = party
      · rw [hparty, Function.update_self] at hmem
        apply hold
        apply h.stores party
        rw [hacts]
        exact List.mem_cons_of_mem _ hmem
      · rw [Function.update_of_ne hparty] at hmem
        exact hold (h.stores _ _ hmem)
  · constructor
    · simp [State.entry]
    · intro other stored hmem
      exact hold (h.stores _ _ hmem)

theorem Run.known (h : Run check may first history s) : Known history s := by
  induction h with
  | start =>
      constructor
      · simp [CheckedWord.start]
      · intro party value hmem
        cases hmem
  | step event run allowed hstep ih => exact ih.step hstep

/-- Each verdict compares the value with one that came before it. -/
theorem Run.verdict (h : Run check may first history s) {stat : S}
    (hsplit : history = before ++ (value, some stat) :: after) :
    ∃ seen ∈ before.map Prod.fst, check.verdict seen value = stat := by
  induction h generalizing after with
  | start =>
      have hmem : (value, some stat) ∈ [((first, none) : Entry V S)] := by
        rw [hsplit]
        exact List.mem_append_right _ List.mem_cons_self
      rw [List.mem_singleton] at hmem
      cases hmem
  | @step history s next event run allowed hstep ih =>
      rcases append_eq_middle hsplit with ⟨rest, hrest⟩ | ⟨pre, hbefore, hentry⟩
      · exact ih hrest
      · obtain ⟨party, rfl, rfl, hstat⟩ := State.entry_eq_middle hentry
        rw [hbefore, List.append_nil]
        exact ⟨s.word, run.known.word, hstat⟩

end Interleaved

section Accounts

variable [Fintype P]

/-- How often a verdict is yet to be counted. -/
def State.pending (s : State P V S M) (stat : S) : Nat :=
  ∑ party, ((s.acts party).filterMap Act.stat?).count stat

omit [DecidableEq S] [AddCommMonoidWithOne M] in
theorem sum_update {A : Type} (f : A → Nat) (acts : P → A) (party : P)
    (new : A) :
    (∑ other, f (Function.update acts party new other)) + f (acts party) =
      (∑ other, f (acts other)) + f new := by
  have hrest : ∑ other ∈ Finset.univ.erase party,
      f (Function.update acts party new other) =
        ∑ other ∈ Finset.univ.erase party, f (acts other) := by
    apply Finset.sum_congr rfl
    intro other hother
    rw [Function.update_of_ne (Finset.ne_of_mem_erase hother)]
  rw [← Finset.add_sum_erase _ _ (Finset.mem_univ party),
    ← Finset.add_sum_erase _ (fun other => f (acts other))
      (Finset.mem_univ party), hrest, Function.update_self]
  omega

omit [DecidableEq P] [AddCommMonoidWithOne M] in
theorem State.Quiet.pending (h : s.Quiet) (stat : S) : s.pending stat = 0 := by
  apply Finset.sum_eq_zero
  intro party _
  rw [h party]
  rfl

/-- How often a verdict has been passed. -/
def passed (history : List (Entry V S)) (stat : S) : Nat :=
  (history.filterMap Prod.snd).count stat

omit [DecidableEq P] [AddCommMonoidWithOne M] in
theorem passed_append (history more : List (Entry V S)) (stat : S) :
    passed (history ++ more) stat = passed history stat + passed more stat := by
  rw [passed, List.filterMap_append, List.count_append, passed, passed]

theorem passed_cons (value : V) (counted : S) (history : List (Entry V S))
    (stat : S) : passed ((value, some counted) :: history) stat =
      (if counted = stat then 1 else 0) + passed history stat := by
  have hsome : Prod.snd ((value, some counted) : Entry V S) = some counted :=
    rfl
  rw [passed, List.filterMap_cons_some hsome, List.count_cons, Nat.add_comm,
    passed]
  simp only [beq_iff_eq]

omit [DecidableEq P] [AddCommMonoidWithOne M] [Fintype P] in
theorem passed_eq_zero {stat : S} (h : ∀ before value after,
    history ≠ before ++ (value, some stat) :: after) :
    passed history stat = 0 := by
  apply List.count_eq_zero_of_not_mem
  intro hmem
  obtain ⟨⟨value, verdict⟩, hentry, hverdict⟩ := List.mem_filterMap.mp hmem
  obtain ⟨before, after, hsplit⟩ := List.append_of_mem hentry
  dsimp only at hverdict
  rw [hverdict] at hsplit
  exact h before value after hsplit

/-- What has been counted, and what is yet to be counted, is what has been
passed. -/
theorem Run.accounts (h : Run check may first history s) (stat : S) :
    s.regs stat + (s.pending stat : M) = (passed history stat : M) := by
  induction h with
  | start =>
      have hquiet : (CheckedWord.start first : State P V S M).Quiet :=
        fun _ => rfl
      rw [hquiet.pending, Nat.cast_zero, add_zero]
      exact Nat.cast_zero.symm
  | @step history s next event run allowed hstep ih =>
      rw [passed_append, Nat.cast_add, ← ih, add_assoc]
      rcases State.step_cases hstep with ⟨party, value, rfl, hacts, rfl⟩ |
        ⟨party, act, rest, rfl, hacts, rfl⟩ | ⟨value, rfl, rfl⟩
      · have hsum := sum_update
          (fun acts => (acts.filterMap Act.stat?).count stat) s.acts party
          (check.acts s.word value)
        simp only [hacts, check.counts, List.filterMap_nil, List.count_nil,
          Nat.add_zero] at hsum
        simp only [State.pending, hsum, Nat.cast_add]
        rfl
      · have hsum := sum_update
          (fun acts => (acts.filterMap Act.stat?).count stat) s.acts party rest
        have hnone : passed (s.entry check (.act party)) stat = 0 := rfl
        rw [hnone, Nat.cast_zero, add_zero]
        cases act with
        | store value =>
            simp only [hacts, List.filterMap_cons, Act.stat?] at hsum
            have hsame := Nat.add_right_cancel hsum
            simp only [State.pending, hsame]
            rfl
        | count counted =>
            simp only [hacts, List.filterMap_cons, Act.stat?,
              List.count_cons] at hsum
            by_cases hstat : counted = stat
            · simp only [hstat, beq_self_eq_true, if_true] at hsum
              have hone : s.pending stat = 1 + ∑ other,
                  (((Function.update s.acts party rest) other).filterMap
                    Act.stat?).count stat := by
                simp only [State.pending]
                omega
              rw [hone, Nat.cast_add, Nat.cast_one, ← add_assoc, hstat]
              simp [Registers.add, Act.stat?, State.pending]
            · simp only [beq_iff_eq, hstat, if_false, Nat.add_zero] at hsum
              have hsame := Nat.add_right_cancel hsum
              simp [Registers.add, Act.stat?, State.pending,
                Function.update_of_ne (Ne.symm hstat), hsame]
      · have hnone : passed (s.entry check (.set value)) stat = 0 :=
          rfl
        rw [hnone, Nat.cast_zero, add_zero]
        rfl

/-- Once no check is going on, the counters tell the verdicts. -/
theorem Run.counted (h : Run check may first history s) (hquiet : s.Quiet)
    (stat : S) : s.regs stat = (passed history stat : M) := by
  rw [← h.accounts stat, hquiet.pending, Nat.cast_zero, add_zero]

/-- The checks of a history. -/
def checked (history : List (Entry V S)) : Nat :=
  (history.filterMap Prod.snd).length

omit [Fintype P] in
/-- Each check has passed one verdict. -/
theorem Run.sum_passed (h : Run check may first history s) {stats : Finset S}
    (hstats : ∀ word value, check.verdict word value ∈ stats) :
    ∑ stat ∈ stats, passed history stat = checked history := by
  have hmem : ∀ stat ∈ (history.filterMap Prod.snd : Multiset S),
      stat ∈ stats := by
    intro stat hstat
    obtain ⟨⟨value, verdict⟩, hentry, hverdict⟩ :=
      List.mem_filterMap.mp (Multiset.mem_coe.mp hstat)
    obtain ⟨before, after, hsplit⟩ := List.append_of_mem hentry
    dsimp only at hverdict
    rw [hverdict] at hsplit
    obtain ⟨seen, _, hseen⟩ := h.verdict hsplit
    rw [← hseen]
    exact hstats seen value
  have hcard := Multiset.sum_count_eq_card hmem
  simpa [passed, checked] using hcard

/-- Once no check is going on, the counters of the verdicts add up to the
number of checks. -/
theorem Run.sum_counted (h : Run check may first history s) (hquiet : s.Quiet)
    {stats : Finset S} (hstats : ∀ word value, check.verdict word value ∈ stats) :
    ∑ stat ∈ stats, s.regs stat = (checked history : M) := by
  rw [← h.sum_passed hstats, Nat.cast_sum]
  exact Finset.sum_congr rfl fun stat _ => h.counted hquiet stat

end Accounts

section Serial

/-- The word after a history of checks, each of them on its own. -/
def replay (check : Check V S) (word : V) (history : List (Entry V S)) : V :=
  history.foldl (fun word entry =>
    if entry.2 = none then entry.1 else check.next word entry.1) word

omit [DecidableEq S] in
theorem replay_append (check : Check V S) (word : V)
    (history more : List (Entry V S)) :
    replay check word (history ++ more) =
      replay check (replay check word history) more := by
  rw [replay, List.foldl_append, replay, replay]

omit [DecidableEq S] in
theorem replay_cons {word : V} {entry : Entry V S} (hcheck : entry.2 ≠ none)
    (history : List (Entry V S)) :
    replay check word (entry :: history) =
      replay check (check.next word entry.1) history := by
  rw [replay, List.foldl_cons, if_neg hcheck, replay]

/-- At most one party is at work, and once it is done the word is that of the
history. -/
def Settled (check : Check V S) (first : V) (history : List (Entry V S))
    (s : State P V S M) : Prop :=
  (s.Quiet ∧ s.word = replay check first history) ∨
    ∃ party, (∀ other, other ≠ party → s.acts other = []) ∧
      (s.acts party).foldl Act.word s.word = replay check first history

omit [DecidableEq P] [DecidableEq S] [AddCommMonoidWithOne M] in
theorem Settled.word (h : Settled check first history s) (hquiet : s.Quiet) :
    s.word = replay check first history := by
  rcases h with ⟨_, hword⟩ | ⟨party, _, hword⟩
  · exact hword
  · rw [hquiet party] at hword
    exact hword

theorem Run.settled (h : Run check Serially first history s) :
    Settled check first history s := by
  induction h with
  | start => exact .inl ⟨fun _ => rfl, rfl⟩
  | @step history s next event run allowed hstep ih =>
      rw [Settled, replay_append]
      rcases State.step_cases hstep with ⟨party, value, rfl, hacts, rfl⟩ |
        ⟨party, act, rest, rfl, hacts, rfl⟩ | ⟨value, rfl, rfl⟩
      · right
        rcases allowed with ⟨_, hevent⟩ | hquiet
        · cases hevent
        · refine ⟨party, ?_, ?_⟩
          · intro other hother
            dsimp only
            rw [Function.update_of_ne hother]
            exact hquiet other
          · dsimp only
            rw [Function.update_self, ih.word hquiet]
            simp [replay, State.entry, Check.next]
      · right
        rcases ih with ⟨hquiet, _⟩ | ⟨worker, hothers, hword⟩
        · rw [hquiet party] at hacts
          cases hacts
        · have hparty : party = worker := by
            by_contra hne
            rw [hothers party hne] at hacts
            cases hacts
          subst hparty
          refine ⟨party, ?_, ?_⟩
          · intro other hother
            dsimp only
            rw [Function.update_of_ne hother]
            exact hothers other hother
          · dsimp only
            rw [Function.update_self]
            rw [hacts, List.foldl_cons] at hword
            exact hword
      · left
        rcases allowed with ⟨_, hevent⟩ | hquiet
        · cases hevent
        · refine ⟨hquiet, ?_⟩
          simp [replay, State.entry]

/-- If the checks do not overlap, each verdict compares the value with the
word after the checks that came before it. -/
theorem Run.serial (h : Run check Serially first history s) {stat : S}
    (hsplit : history = before ++ (value, some stat) :: after) :
    check.verdict (replay check first before) value = stat := by
  induction h generalizing after with
  | start =>
      have hmem : (value, some stat) ∈ [((first, none) : Entry V S)] := by
        rw [hsplit]
        exact List.mem_append_right _ List.mem_cons_self
      rw [List.mem_singleton] at hmem
      cases hmem
  | @step history s next event run allowed hstep ih =>
      rcases append_eq_middle hsplit with ⟨rest, hrest⟩ | ⟨pre, hbefore, hentry⟩
      · exact ih hrest
      · obtain ⟨party, rfl, rfl, hstat⟩ := State.entry_eq_middle hentry
        rcases allowed with ⟨_, hevent⟩ | hquiet
        · cases hevent
        · rw [hbefore, List.append_nil, ← run.settled.word hquiet, hstat]

/-- Each verdict of the history compares the value with the word after the
checks before it. -/
def Judged (check : Check V S) (word : V) (history : List (Entry V S)) :
    Prop :=
  ∀ before value stat after,
    history = before ++ (value, some stat) :: after →
      check.verdict (replay check word before) value = stat

theorem Run.judged (h : Run check Serially first history s) :
    Judged check first history :=
  fun _ _ _ _ hsplit => h.serial hsplit

omit [DecidableEq S] in
/-- The checks after the word has been set. -/
theorem Judged.since {old : List (Entry V S)} {word : V}
    (h : Judged check first (old ++ (word, none) :: history)) :
    Judged check word history := by
  intro before value stat after hsplit
  have hverdict := h (old ++ (word, none) :: before) value stat after (by
    rw [hsplit, List.append_assoc, List.cons_append])
  rw [replay_append] at hverdict
  exact hverdict

omit [DecidableEq S] in
theorem Judged.of_append (h : Judged check first (history ++ after)) :
    Judged check first history := by
  intro before value stat rest hsplit
  apply h before value stat (rest ++ after)
  rw [hsplit, List.append_assoc, List.cons_append]

omit [DecidableEq S] in
theorem Judged.cons {stat : S}
    (h : Judged check first ((value, some stat) :: history)) :
    check.verdict first value = stat ∧
      Judged check (check.next first value) history := by
  constructor
  · exact h [] value stat history rfl
  · intro before other otherStat after hsplit
    apply h ((value, some stat) :: before) other otherStat after
    rw [hsplit, List.cons_append]

end Serial

section Successors

variable [DecidableEq V] (succ : V → V)

/-- How often a value is the successor of the last one that was. -/
def follow (word : V) : List V → Nat
  | [] => 0
  | value :: values =>
      if value = succ word then follow value values + 1
      else follow word values

/-- It is the length of the longest chain that the values contain. -/
theorem iterate_sublist_iff (word : V) (values : List V) (length : Nat) :
    (List.iterate succ (succ word) length).Sublist values ↔
      length ≤ follow succ word values := by
  induction values generalizing word length with
  | nil =>
      cases length with
      | zero => simp [follow]
      | succ length => simp [follow]
  | cons value values ih =>
      cases length with
      | zero => simp
      | succ length =>
          rw [List.iterate, follow]
          by_cases hvalue : value = succ word
          · rw [if_pos hvalue, hvalue, List.cons_sublist_cons, ih,
              Nat.succ_le_succ_iff]
          · have hskip : ∀ rest : List V,
                (succ word :: rest).Sublist (value :: values) ↔
                  (succ word :: rest).Sublist values := by
              intro rest
              constructor
              · intro h
                cases h with
                | cons _ h => exact h
                | cons_cons _ h => exact absurd rfl hvalue
              · intro h
                exact h.cons value
            rw [if_neg hvalue, hskip, ← ih word (length + 1), List.iterate]

end Successors

end CheckedWord

end Barley
