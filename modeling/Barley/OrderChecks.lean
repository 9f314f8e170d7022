/-
The checks of the order of packets: of the packet ids, and of the source
addresses of a test stream.  A core reads the last value from `ipc_cur`, and
counts and stores afterwards; other cores and the host may have changed the
word by then.
-/
import Barley.CheckedWord
import Barley.DataPath
import Mathlib.Tactic.FinCases

namespace Barley

open CheckedWord

/-- The check of a packet id, step by step. -/
def pktidCheck : Check (BitVec 64) DataStat where
  acts cpid ppid :=
    if cpid = 0 then
      if ppid = cpid then [.count .ipcPktidRepeat]
      else [.count .ipcPktidOrdered, .store ppid]
    else if ppid = cpid then [.count .ipcPktidRepeat]
    else if cpid < ppid then [.store ppid, .count .ipcPktidOrdered]
    else [.count .ipcPktidDisorder]
  verdict cpid ppid := (pktidChecked cpid ppid).1
  counts cpid ppid := by
    unfold pktidChecked
    split_ifs <;> rfl
  stores cpid ppid other hmem := by
    split_ifs at hmem
    all_goals simp at hmem
    all_goals exact hmem

/-- The check of a source address, step by step. -/
def smacCheck : Check (BitVec 64) DataStat where
  acts csmac psmac :=
    if csmac = 0 then [.store psmac, .count .ipcSmacOrdered]
    else if psmac = csmac + 1 then [.store psmac, .count .ipcSmacOrdered]
    else [.count .ipcSmacDisorder]
  verdict csmac psmac := (smacChecked csmac psmac).1
  counts csmac psmac := by
    unfold smacChecked
    split_ifs <;> rfl
  stores csmac psmac other hmem := by
    split_ifs at hmem
    all_goals simp at hmem
    all_goals exact hmem

/-- What the cores that check do, and what the host sets. -/
abbrev OrderState (cores : Nat) :=
  State (Fin cores) (BitVec 64) DataStat (BitVec 64)

abbrev OrderHistory := List (Entry (BitVec 64) DataStat)

section Verdicts

/-- A pass stores what its check stores. -/
theorem pktidCheck_next (cpid ppid : BitVec 64) :
    pktidCheck.next cpid ppid = ((pktidChecked cpid ppid).2.getD cpid) := by
  unfold Check.next pktidCheck pktidChecked
  dsimp only
  split_ifs <;> rfl

theorem smacCheck_next (csmac psmac : BitVec 64) :
    smacCheck.next csmac psmac = ((smacChecked csmac psmac).2.getD csmac) := by
  unfold Check.next smacCheck smacChecked
  dsimp only
  split_ifs <;> rfl

theorem pktidChecked_eq_disorder_iff {cpid ppid : BitVec 64} :
    (pktidChecked cpid ppid).1 = .ipcPktidDisorder ↔ ppid < cpid := by
  unfold pktidChecked
  split_ifs
  all_goals
    simp only [false_iff, true_iff]
    bv_omega

theorem pktidChecked_eq_repeat_iff {cpid ppid : BitVec 64} :
    (pktidChecked cpid ppid).1 = .ipcPktidRepeat ↔ ppid = cpid := by
  unfold pktidChecked
  split_ifs with _ hsame hsame
  all_goals simpa using hsame

theorem pktidChecked_eq_ordered_iff {cpid ppid : BitVec 64} :
    (pktidChecked cpid ppid).1 = .ipcPktidOrdered ↔ cpid < ppid := by
  unfold pktidChecked
  split_ifs
  all_goals
    simp only [false_iff, true_iff]
    bv_omega

theorem smacChecked_eq_ordered_iff {csmac psmac : BitVec 64} :
    (smacChecked csmac psmac).1 = .ipcSmacOrdered ↔
      csmac = 0 ∨ psmac = csmac + 1 := by
  unfold smacChecked
  split_ifs with hzero hsucc
  · exact iff_of_true rfl (.inl hzero)
  · exact iff_of_true rfl (.inr hsucc)
  · apply iff_of_false
    · intro h
      cases h
    · exact not_or.mpr ⟨hzero, hsucc⟩

end Verdicts

section Interleaved

variable {cores : Nat} {history : OrderHistory} {s : OrderState cores}
  {first : BitVec 64}
  {may : OrderState cores → Event (Fin cores) (BitVec 64) → Prop}

/-- The counters of a check, and the word, once no check is going on. -/
structure Counted (stats : Finset DataStat) (history : OrderHistory)
    (s : OrderState cores) : Prop where
  each : ∀ stat, s.regs stat = BitVec.ofNat 64 (passed history stat)
  all : ∑ stat ∈ stats, s.regs stat = BitVec.ofNat 64 (checked history)
  word : s.word ∈ history.map Prod.fst

theorem Counted.of_run {check : Check (BitVec 64) DataStat}
    (h : Run check may first history s) (hquiet : s.Quiet)
    {stats : Finset DataStat}
    (hstats : ∀ word value, check.verdict word value ∈ stats) :
    Counted stats history s where
  each stat := h.counted hquiet stat
  all := h.sum_counted hquiet hstats
  word := h.known.word

def pktidVerdicts : Finset DataStat :=
  {.ipcPktidOrdered, .ipcPktidDisorder, .ipcPktidRepeat}

def smacVerdicts : Finset DataStat := {.ipcSmacOrdered, .ipcSmacDisorder}

/-- No packet is taken for one out of order, or for a repeated one, without
another that justifies it. -/
structure NoFalseAlarm (history : OrderHistory) : Prop where
  disorder : ∀ before ppid after,
    history = before ++ (ppid, some .ipcPktidDisorder) :: after →
      ∃ earlier ∈ before.map Prod.fst, ppid < earlier
  repeated : ∀ before ppid after,
    history = before ++ (ppid, some .ipcPktidRepeat) :: after →
      ppid ∈ before.map Prod.fst
  ordered : ∀ before ppid after,
    history = before ++ (ppid, some .ipcPktidOrdered) :: after →
      ∃ earlier ∈ before.map Prod.fst, earlier < ppid
  increasing : (history.map Prod.fst).Pairwise (· < ·) →
    passed history .ipcPktidDisorder = 0 ∧ passed history .ipcPktidRepeat = 0

/-- In every order of the steps of the cores and of the host, the check of the
packet ids raises no false alarm, and counts each packet once. -/
theorem pktidCheck_noFalseAlarm (h : Run pktidCheck may first history s) :
    NoFalseAlarm history ∧ (s.Quiet → Counted pktidVerdicts history s) := by
  have hdisorder : ∀ before ppid after,
      history = before ++ (ppid, some .ipcPktidDisorder) :: after →
        ∃ earlier ∈ before.map Prod.fst, ppid < earlier := by
    intro before ppid after hsplit
    obtain ⟨seen, hmem, hverdict⟩ := h.verdict hsplit
    exact ⟨seen, hmem, pktidChecked_eq_disorder_iff.mp hverdict⟩
  have hrepeat : ∀ before ppid after,
      history = before ++ (ppid, some .ipcPktidRepeat) :: after →
        ppid ∈ before.map Prod.fst := by
    intro before ppid after hsplit
    obtain ⟨seen, hmem, hverdict⟩ := h.verdict hsplit
    rw [pktidChecked_eq_repeat_iff.mp hverdict]
    exact hmem
  refine ⟨⟨hdisorder, hrepeat, ?_, ?_⟩, ?_⟩
  · intro before ppid after hsplit
    obtain ⟨seen, hmem, hverdict⟩ := h.verdict hsplit
    exact ⟨seen, hmem, pktidChecked_eq_ordered_iff.mp hverdict⟩
  · intro hincreasing
    have hless : ∀ before ppid stat after,
        history = before ++ (ppid, stat) :: after →
          ∀ earlier ∈ before.map Prod.fst, earlier < ppid := by
      intro before ppid stat after hsplit earlier hearlier
      rw [hsplit, List.map_append, List.pairwise_append] at hincreasing
      exact hincreasing.2.2 earlier hearlier ppid List.mem_cons_self
    constructor
    · apply passed_eq_zero
      intro before ppid after hsplit
      obtain ⟨earlier, hmem, hgreater⟩ := hdisorder before ppid after hsplit
      have hsmaller := hless before ppid _ after hsplit earlier hmem
      bv_omega
    · apply passed_eq_zero
      intro before ppid after hsplit
      have hmem := hrepeat before ppid after hsplit
      have hsmaller := hless before ppid _ after hsplit ppid hmem
      bv_omega
  · intro hquiet
    apply Counted.of_run h hquiet
    intro word value
    show (pktidChecked word value).1 ∈ pktidVerdicts
    unfold pktidChecked
    split_ifs <;> simp [pktidVerdicts]

/-- In every order of the steps of the cores and of the host, the check of the
source addresses takes no address for one in order without its predecessor, or
a zero, and counts each packet once. -/
theorem smacCheck_noMissedAlarm (h : Run smacCheck may first history s) :
    (∀ before psmac after,
      history = before ++ (psmac, some .ipcSmacOrdered) :: after →
        0 ∈ before.map Prod.fst ∨ psmac - 1 ∈ before.map Prod.fst) ∧
    (s.Quiet → Counted smacVerdicts history s) := by
  constructor
  · intro before psmac after hsplit
    obtain ⟨seen, hmem, hverdict⟩ := h.verdict hsplit
    rcases smacChecked_eq_ordered_iff.mp hverdict with hzero | hsucc
    · rw [hzero] at hmem
      exact .inl hmem
    · right
      rw [hsucc, BitVec.add_sub_cancel]
      exact hmem
  · intro hquiet
    apply Counted.of_run h hquiet
    intro word value
    show (smacChecked word value).1 ∈ smacVerdicts
    unfold smacChecked
    split_ifs <;> simp [smacVerdicts]

end Interleaved

section Overtaken

def core0 : Fin 2 := ⟨0, Nat.two_pos⟩

def core1 : Fin 2 := ⟨1, Nat.one_lt_two⟩

/-- Two cores check at the same time, and the word goes back. -/
def overtaken : List (Event (Fin 2) (BitVec 64)) :=
  [.check core0 5, .check core1 3, .act core0, .act core0, .act core1,
    .act core1, .check core0 5, .act core0, .act core0]

def overtakenHistory : OrderHistory :=
  [(0, none), (5, some .ipcPktidOrdered), (3, some .ipcPktidOrdered),
    (5, some .ipcPktidOrdered)]

theorem execute_overtaken : ∃ s : OrderState 2,
    execute pktidCheck 0 overtaken = some (overtakenHistory, s) ∧ s.Quiet := by
  refine ⟨_, rfl, ?_⟩
  intro party
  fin_cases party <;> rfl

/-- An alarm can be missed; false ones cannot be raised. -/
theorem pktidCheck_noFalseAlarm_overtaken :
    NoFalseAlarm overtakenHistory ∧
      ∃ s : OrderState 2, Counted pktidVerdicts overtakenHistory s := by
  obtain ⟨s, hrun, hquiet⟩ := execute_overtaken
  obtain ⟨halarm, hcounted⟩ := pktidCheck_noFalseAlarm (run_of_execute hrun)
  exact ⟨halarm, s, hcounted hquiet⟩

/-- The second address is read before the first one is stored. -/
def early : List (Event (Fin 2) (BitVec 64)) :=
  [.check core0 8, .check core1 9, .act core0, .act core0, .act core1]

def earlyHistory : OrderHistory :=
  [(7, none), (8, some .ipcSmacOrdered), (9, some .ipcSmacDisorder)]

theorem execute_early : ∃ s : OrderState 2,
    execute smacCheck 7 early = some (earlyHistory, s) ∧ s.Quiet := by
  refine ⟨_, rfl, ?_⟩
  intro party
  fin_cases party <;> rfl

/-- A false alarm can be raised; none is missed. -/
theorem smacCheck_noMissedAlarm_early :
    (∀ before psmac after,
      earlyHistory = before ++ (psmac, some .ipcSmacOrdered) :: after →
        0 ∈ before.map Prod.fst ∨ psmac - 1 ∈ before.map Prod.fst) ∧
    ∃ s : OrderState 2, Counted smacVerdicts earlyHistory s := by
  obtain ⟨s, hrun, hquiet⟩ := execute_early
  obtain ⟨hordered, hcounted⟩ := smacCheck_noMissedAlarm (run_of_execute hrun)
  exact ⟨hordered, s, hcounted hquiet⟩

end Overtaken

section Serial

variable {cores : Nat} {history old checks after : OrderHistory}
  {s : OrderState cores} {first word : BitVec 64}

theorem pktidCheck_next_spec (cpid ppid : BitVec 64) :
    (pktidCheck.next cpid ppid = cpid ∨ pktidCheck.next cpid ppid = ppid) ∧
      cpid ≤ pktidCheck.next cpid ppid ∧ ppid ≤ pktidCheck.next cpid ppid := by
  rw [pktidCheck_next]
  unfold pktidChecked
  split_ifs with hzero hsame hsame hless
  · exact ⟨.inl rfl, BitVec.le_refl _, BitVec.le_of_eq hsame⟩
  · refine ⟨.inr rfl, ?_, BitVec.le_refl _⟩
    dsimp only [Option.getD]
    bv_omega
  · exact ⟨.inl rfl, BitVec.le_refl _, BitVec.le_of_eq hsame⟩
  · exact ⟨.inr rfl, BitVec.le_of_lt hless, BitVec.le_refl _⟩
  · exact ⟨.inl rfl, BitVec.le_refl _, BitVec.not_lt.mp hless⟩

/-- The word after checks of packet ids is the largest of the values. -/
theorem replay_pktidCheck (word : BitVec 64) {checks : OrderHistory}
    (hchecks : ∀ entry ∈ checks, entry.2 ≠ none) :
    replay pktidCheck word checks ∈ word :: checks.map Prod.fst ∧
      ∀ value ∈ word :: checks.map Prod.fst,
        value ≤ replay pktidCheck word checks := by
  induction checks generalizing word with
  | nil => simp [replay]
  | cons entry checks ih =>
      obtain ⟨hnext, hword, hvalue⟩ := pktidCheck_next_spec word entry.1
      obtain ⟨hmem, hmax⟩ := ih (pktidCheck.next word entry.1)
        fun other hother => hchecks other (List.mem_cons_of_mem _ hother)
      have hfirst := hmax _ List.mem_cons_self
      rw [replay_cons (hchecks entry List.mem_cons_self), List.map_cons]
      constructor
      · rcases List.mem_cons.mp hmem with hsame | hrest
        · rw [hsame]
          rcases hnext with h | h
          · rw [h]
            exact List.mem_cons_self
          · rw [h]
            exact List.mem_cons_of_mem _ List.mem_cons_self
        · exact List.mem_cons_of_mem _ (List.mem_cons_of_mem _ hrest)
      · intro value hvaluemem
        rcases List.mem_cons.mp hvaluemem with rfl | hrest
        · exact BitVec.le_trans hword hfirst
        · rcases List.mem_cons.mp hrest with rfl | hlater
          · exact BitVec.le_trans hvalue hfirst
          · exact hmax value (List.mem_cons_of_mem _ hlater)

/-- What the verdict of a packet id says about the values since the word was
last set. -/
structure PktidExact (values : List (BitVec 64)) (ppid : BitVec 64)
    (stat : DataStat) : Prop where
  ordered : stat = .ipcPktidOrdered ↔ ∀ value ∈ values, value < ppid
  repeated : stat = .ipcPktidRepeat ↔
    ppid ∈ values ∧ ∀ value ∈ values, value ≤ ppid
  disorder : stat = .ipcPktidDisorder ↔ ∃ value ∈ values, ppid < value

theorem quiet_of_one {s : OrderState 1} (h : s.acts 0 = []) : s.Quiet := by
  intro core
  rw [Subsingleton.elim core 0]
  exact h

def overtakenOnce : OrderHistory :=
  [(0, none), (5, some .ipcPktidOrdered), (3, some .ipcPktidDisorder)]

/-- A core checks a packet, and then one that has been overtaken. -/
theorem run_overtakenOnce :
    ∃ s : OrderState 1, Run pktidCheck Serially 0 overtakenOnce s := by
  have hstart : Run pktidCheck Serially 0 [(0, none)] (start 0 : OrderState 1) :=
    .start
  have hcheck := hstart.step (.check 0 5) (Or.inr (quiet_of_one rfl)) rfl
  have hcount := hcheck.step (.act 0) (Or.inl ⟨0, rfl⟩) rfl
  have hstore := hcount.step (.act 0) (Or.inl ⟨0, rfl⟩) rfl
  exact ⟨_, hstore.step (.check 0 3) (Or.inr (quiet_of_one rfl)) rfl⟩

/-- The address that the check takes first. -/
def firstSmac (word : BitVec 64) (values : List (BitVec 64)) : BitVec 64 :=
  if word = 0 then values.headD 0 else word + 1

/-- The first of some checks of addresses, and the others. -/
theorem judged_smacCheck_cons {checks : OrderHistory} {value : BitVec 64}
    {stat : DataStat}
    (hjudged : Judged smacCheck word ((value, some stat) :: checks)) :
    (smacChecked word value).1 = stat ∧
      Judged smacCheck ((smacChecked word value).2.getD word) checks := by
  obtain ⟨hverdict, hrest⟩ := hjudged.cons
  rw [smacCheck_next] at hrest
  exact ⟨hverdict, hrest⟩

-- A packet whose address is zero has been dropped before the check.
theorem passed_smacCheck {checks : OrderHistory} {word : BitVec 64}
    (hjudged : Judged smacCheck word checks)
    (hchecks : ∀ entry ∈ checks, entry.2 ≠ none ∧ entry.1 ≠ 0)
    (hword : word ≠ 0) :
    passed checks .ipcSmacOrdered =
      follow (· + 1) word (checks.map Prod.fst) := by
  induction checks generalizing word with
  | nil => rfl
  | cons entry checks ih =>
      obtain ⟨value, verdict⟩ := entry
      obtain ⟨hsome, hvalue⟩ := hchecks _ List.mem_cons_self
      cases verdict with
      | none => exact absurd rfl hsome
      | some stat =>
          obtain ⟨hstat, hrest⟩ := judged_smacCheck_cons hjudged
          have hlater := fun other hother =>
            hchecks other (List.mem_cons_of_mem _ hother)
          rw [List.map_cons, follow, passed_cons]
          by_cases hsucc : value = word + 1
          · have hchecked : smacChecked word value =
                (.ipcSmacOrdered, some value) := by
              rw [smacChecked, if_neg hword, if_pos hsucc]
            rw [hchecked] at hrest
            rw [← hstat, hchecked, if_pos rfl, if_pos hsucc,
              ih hrest hlater hvalue]
            exact Nat.add_comm _ _
          · have hchecked : smacChecked word value =
                (.ipcSmacDisorder, none) := by
              rw [smacChecked, if_neg hword, if_neg hsucc]
            rw [hchecked] at hrest
            have hdisorder : DataStat.ipcSmacDisorder ≠ .ipcSmacOrdered := by
              decide
            rw [← hstat, hchecked, if_neg hsucc, if_neg hdisorder,
              ih hrest hlater hword]
            exact Nat.zero_add _

def gapOnce : OrderHistory :=
  [(7, some .ipcSmacOrdered), (9, some .ipcSmacDisorder),
    (8, some .ipcSmacOrdered)]

/-- A core finds an address too early. -/
theorem run_gapOnce :
    ∃ s : OrderState 1, Run smacCheck Serially 0 ((0, none) :: gapOnce) s := by
  have hstart : Run smacCheck Serially 0 [(0, none)] (start 0 : OrderState 1) :=
    .start
  have hseven := hstart.step (.check 0 7) (Or.inr (quiet_of_one rfl)) rfl
  have hstore := hseven.step (.act 0) (Or.inl ⟨0, rfl⟩) rfl
  have hcount := hstore.step (.act 0) (Or.inl ⟨0, rfl⟩) rfl
  have hnine := hcount.step (.check 0 9) (Or.inr (quiet_of_one rfl)) rfl
  have hdisorder := hnine.step (.act 0) (Or.inl ⟨0, rfl⟩) rfl
  exact ⟨_, hdisorder.step (.check 0 8) (Or.inr (quiet_of_one rfl)) rfl⟩

end Serial

end Barley
