/-
When the return value of the calls that move data can be trusted.
-/
import Mathlib.Tactic.Common
import Barley.DmaCalls

namespace Barley

/-- The command was accepted, and its completion byte is written by the end of
the polls. -/
def DmaCmd.Completed (cmd : DmaCmd) : Prop :=
  cmd.rv = 0 ∧ writtenBy cmd.done dmaWaitInterval = true

/-- The commands of a call, in their order. -/
def submitted : List DmaEvent → List DmaCmd :=
  List.filterMap fun event =>
    match event with
    | .submit cmd => some cmd
    | _ => none

/-- Every completion pointer is released once after it was taken, and not
while an accepted command can still write to it. -/
inductive Settled : List DmaEvent → Prop where
  | nil : Settled []
  | unused (comp tick : Nat) {rest : List DmaEvent} (hrest : Settled rest) :
      Settled (.take comp :: .release comp tick :: rest)
  | used (comp tick : Nat) (cmd : DmaCmd) {rest : List DmaEvent}
      (hwritten : cmd.rv = 0 → writtenBy cmd.done tick = true)
      (hrest : Settled rest) :
      Settled (.take comp :: .submit cmd :: .release comp tick :: rest)

/-- Success means that every command was completed, no command comes after
one that was not, and the completion pointers are settled. -/
structure DmaTrusted (result : Fre × List DmaEvent) : Prop where
  success : result.1 = .success → ∀ cmd ∈ submitted result.2, cmd.Completed
  stops : ∀ cmd ∈ (submitted result.2).dropLast, cmd.Completed
  settled : Settled result.2

/-- The command gets a completion pointer and is accepted. -/
def DmaEnv.Accepts (env : DmaEnv) : Prop :=
  env.comp.isSome ∧ env.rv = 0

/-- If the command is accepted, it completes by the end of the polls. -/
def DmaEnv.Completes (env : DmaEnv) : Prop :=
  env.Accepts → writtenBy env.done dmaWaitInterval = true

section Wait

variable {done : Option Nat}

theorem writtenBy_mono {tick tick' : Nat} (h : writtenBy done tick = true)
    (hle : tick ≤ tick') : writtenBy done tick' = true := by
  cases done with
  | none => cases h
  | some poll =>
      have hpoll := of_decide_eq_true h
      exact decide_eq_true (Nat.le_trans hpoll hle)

theorem dmaWait_spec {rounds i : Nat} (h : i + rounds = dmaWaitInterval) :
    dmaWait done rounds i ≤ dmaWaitInterval ∧
      (writtenBy done (dmaWait done rounds i) = true ∨
        dmaWait done rounds i = dmaWaitInterval) := by
  induction rounds generalizing i with
  | zero => exact ⟨by rw [dmaWait]; omega, .inr h⟩
  | succ rounds ih =>
      rw [dmaWait]
      split
      case isTrue hwritten => exact ⟨by omega, .inl hwritten⟩
      case isFalse =>
        split
        case isTrue => exact ih (by omega)
        case isFalse => exact ⟨by omega, .inr (by omega)⟩

/-- The wait ends when the byte is written, or with the last poll. -/
theorem writtenBy_dmaWait :
    writtenBy done (dmaWait done dmaWaitInterval 0) = true ↔
      writtenBy done dmaWaitInterval = true := by
  obtain ⟨hle, hend⟩ := @dmaWait_spec done dmaWaitInterval 0 (Nat.zero_add _)
  constructor
  · exact fun h => writtenBy_mono h hle
  · intro h
    rcases hend with hwritten | heq
    · exact hwritten
    · rwa [heq]

end Wait

theorem trusted_nil (rv : Fre) : DmaTrusted (rv, []) :=
  ⟨fun _ _ h => absurd h List.not_mem_nil,
    fun _ h => absurd h List.not_mem_nil, .nil⟩

section Issue

variable {dir : DmaDir} {pointers : List DmaPointer} {env : DmaEnv}
  {comp : Nat}

theorem submitted_issue (rest : List DmaEvent) :
    submitted (.take comp :: (dmaIssue dir pointers env comp).2 ++ rest) =
      ⟨dir, pointers, env.rv, env.done⟩ :: submitted rest := by
  rw [dmaIssue]
  split
  · rfl
  · rfl

theorem issue_success_iff :
    (dmaIssue dir pointers env comp).1 = .success ↔ env.rv = 0 := by
  rw [dmaIssue]
  split
  case isTrue h => exact iff_of_false nofun h
  case isFalse h => exact iff_of_true rfl (not_not.mp h)

theorem settled_issue_iff (rest : List DmaEvent) :
    Settled (.take comp :: (dmaIssue dir pointers env comp).2 ++ rest) ↔
      (env.rv = 0 → writtenBy env.done dmaWaitInterval = true) ∧
        Settled rest := by
  rw [dmaIssue]
  split
  case isTrue hrv =>
    constructor
    · intro h
      cases h with
      | used _ _ _ _ hrest => exact ⟨fun hzero => absurd hzero hrv, hrest⟩
    · exact fun h => .used _ _ _ (fun hzero => absurd hzero hrv) h.2
  case isFalse =>
    constructor
    · intro h
      cases h with
      | used _ _ _ hwritten hrest =>
          exact ⟨fun hzero => writtenBy_dmaWait.mp (hwritten hzero), hrest⟩
    · exact fun h =>
        .used _ _ _ (fun hzero => writtenBy_dmaWait.mpr (h.1 hzero)) h.2

/-- A single command can be trusted when it completes if it is accepted. -/
theorem issue_trusted_iff :
    DmaTrusted ((dmaIssue dir pointers env comp).1,
        .take comp :: (dmaIssue dir pointers env comp).2) ↔
      (env.rv = 0 → writtenBy env.done dmaWaitInterval = true) := by
  have hsettled := @settled_issue_iff dir pointers env comp []
  have hsubmitted := @submitted_issue dir pointers env comp []
  rw [List.append_nil] at hsettled hsubmitted
  constructor
  · exact fun h => (hsettled.mp h.settled).1
  · intro h
    refine ⟨?_, ?_, hsettled.mpr ⟨h, .nil⟩⟩
    · intro hsuccess cmd hcmd
      simp only [hsubmitted] at hcmd
      rw [List.mem_singleton.mp hcmd]
      have hrv := issue_success_iff.mp hsuccess
      exact ⟨hrv, h hrv⟩
    · intro cmd hcmd
      simp only [hsubmitted] at hcmd
      exact absurd hcmd List.not_mem_nil

end Issue

section Calls

variable (drv : PciDriver) (dir : DmaDir)

/-- The pieces of a scatter have sizes that the driver takes. -/
def FrcoreDmaScatterDesc.Fits (desc : FrcoreDmaScatterDesc) : Prop :=
  desc.number ≠ 0 ∧ desc.number ≤ drv.maxPointers ∧
    ∀ i < desc.number.toNat, desc.size i ≠ 0 ∧ desc.size i ≤ drv.maxLocalBuf

theorem scatterPointers_isSome_iff (desc : FrcoreDmaScatterDesc)
    (indexes : List Nat) :
    (scatterPointers drv desc indexes).isSome ↔
      ∀ i ∈ indexes, desc.size i ≠ 0 ∧ desc.size i ≤ drv.maxLocalBuf := by
  induction indexes with
  | nil => exact iff_of_true rfl fun _ h => absurd h List.not_mem_nil
  | cons i rest ih =>
      rw [scatterPointers, List.forall_mem_cons, ← ih]
      split
      case isTrue hzero => exact iff_of_false nofun fun h => h.1.1 hzero
      case isFalse hzero =>
        split
        case isTrue hlarge =>
          exact iff_of_false nofun fun h => absurd hlarge (by omega)
        case isFalse hsmall =>
          rw [Option.isSome_map]
          exact (and_iff_right ⟨hzero, by omega⟩).symm

theorem frcoreDmaScatter_trusted_iff (desc : FrcoreDmaScatterDesc)
    (env : DmaEnv) :
    DmaTrusted (frcoreDmaScatter drv dir desc env) ↔
      (desc.Fits drv → env.Completes) := by
  rw [frcoreDmaScatter, FrcoreDmaScatterDesc.Fits, DmaEnv.Completes,
    DmaEnv.Accepts]
  by_cases hzero : desc.number = 0
  · rw [if_pos hzero]
    exact iff_of_true (trusted_nil _) fun h => absurd hzero h.1
  rw [if_neg hzero]
  by_cases hmany : drv.maxPointers < desc.number
  · rw [if_pos hmany]
    exact iff_of_true (trusted_nil _) fun h => absurd hmany (by omega)
  rw [if_neg hmany]
  cases env.comp with
  | none => exact iff_of_true (trusted_nil _) fun _ h => by cases h.1
  | some comp =>
      have hpieces := scatterPointers_isSome_iff drv desc
        (List.range desc.number.toNat)
      simp only [List.mem_range] at hpieces
      cases hpointers : scatterPointers drv desc
          (List.range desc.number.toNat) with
      | none =>
          rw [hpointers] at hpieces
          refine iff_of_true ⟨nofun, ?_, .unused comp 0 .nil⟩ fun h =>
            absurd (hpieces.mpr h.2.2) nofun
          exact fun _ h => absurd h List.not_mem_nil
      | some pointers =>
          rw [hpointers] at hpieces
          refine issue_trusted_iff.trans ⟨?_, ?_⟩
          · exact fun h _ haccepts => h haccepts.2
          · exact fun h hrv => h ⟨hzero, by omega, hpieces.mp rfl⟩ ⟨rfl, hrv⟩

theorem frcoreDmaGatherOne_trusted_iff (size : Int)
    (localAddr remoteAddr : BitVec 64) (env : DmaEnv) :
    DmaTrusted (frcoreDmaGatherOne drv size localAddr remoteAddr dir env) ↔
      (size ≠ 0 → size ≤ drv.buffMax → env.Completes) := by
  rw [frcoreDmaGatherOne, DmaEnv.Completes, DmaEnv.Accepts]
  by_cases hzero : size = 0
  · rw [if_pos hzero]
    exact iff_of_true (trusted_nil _) fun h => absurd hzero h
  rw [if_neg hzero]
  by_cases hlarge : drv.buffMax < size
  · rw [if_pos hlarge]
    exact iff_of_true (trusted_nil _) fun _ h => absurd hlarge (by omega)
  rw [if_neg hlarge]
  cases env.comp with
  | none => exact iff_of_true (trusted_nil _) fun _ _ h => by cases h.1
  | some comp =>
      refine issue_trusted_iff.trans ⟨?_, ?_⟩
      · exact fun h _ _ haccepts => h haccepts.2
      · exact fun h hrv => h hzero (by omega) ⟨rfl, hrv⟩

/-- The rounds of `frcore_dma_gather`. -/
def PciDriver.rounds (size : Int) : Nat :=
  if 0 ≤ size then (size.toNat + drv.buffMax - 1) / drv.buffMax else 1

theorem rounds_zero : drv.rounds 0 = 0 := by
  have hpos := drv.buffMax_pos
  rw [PciDriver.rounds, if_pos (by decide)]
  exact Nat.div_eq_of_lt (by simp only [Int.toNat_zero]; omega)

theorem rounds_succ {size : Int} (h : size ≠ 0) :
    drv.rounds size = drv.rounds (size - drv.piece size) + 1 := by
  have hpos := drv.buffMax_pos
  rw [PciDriver.piece]
  by_cases hlarge : drv.buffMax < size
  · rw [if_pos hlarge, PciDriver.rounds, PciDriver.rounds, if_pos (by omega),
      if_pos (by omega), ← Nat.add_div_right _ hpos]
    exact congrArg (· / drv.buffMax) (by omega)
  · rw [if_neg hlarge, Int.sub_self, rounds_zero, PciDriver.rounds]
    by_cases hneg : 0 ≤ size
    · rw [if_pos hneg]
      refine Nat.div_eq_of_lt_le ?_ ?_
      · omega
      · omega
    · rw [if_neg hneg]

/-- A round either finds no completion pointer, or issues a command. -/
theorem gatherOne_cases {size : Int} (h : size ≠ 0)
    (localAddr remoteAddr : BitVec 64) (env : DmaEnv) :
    (env.comp = none ∧ frcoreDmaGatherOne drv (drv.piece size) localAddr
        remoteAddr dir env = (.memory, [])) ∨
      ∃ comp, env.comp = some comp ∧
        frcoreDmaGatherOne drv (drv.piece size) localAddr remoteAddr dir env =
          ((dmaIssue dir (gatherPointers drv (drv.piece size)
              (drv.phys localAddr) remoteAddr) env comp).1,
            .take comp :: (dmaIssue dir (gatherPointers drv (drv.piece size)
              (drv.phys localAddr) remoteAddr) env comp).2) := by
  have hpos := drv.buffMax_pos
  have hne : drv.piece size ≠ 0 := by
    rw [PciDriver.piece]
    split <;> omega
  have hle : ¬ drv.buffMax < drv.piece size := by
    rw [PciDriver.piece]
    split <;> omega
  rw [frcoreDmaGatherOne, if_neg hne, if_neg hle]
  cases env.comp with
  | none => exact .inl ⟨rfl, rfl⟩
  | some comp => exact .inr ⟨comp, rfl, rfl⟩

/-- What `frcore_dma_gather` does with a range that is not empty: it finds no
completion pointer, or its first command is refused, or the rounds go on. -/
theorem gather_cases {size : Int} (h : size ≠ 0)
    (localAddr remoteAddr : BitVec 64) (env : Nat → DmaEnv) :
    (¬ (env 0).Accepts ∧ frcoreDmaGather drv dir localAddr remoteAddr size env =
        (.memory, [])) ∨
      ∃ comp, ((env 0).rv ≠ 0 ∧
        frcoreDmaGather drv dir localAddr remoteAddr size env =
          ((dmaIssue dir (gatherPointers drv (drv.piece size)
              (drv.phys localAddr) remoteAddr) (env 0) comp).1,
            .take comp :: (dmaIssue dir (gatherPointers drv (drv.piece size)
              (drv.phys localAddr) remoteAddr) (env 0) comp).2)) ∨
      ((env 0).Accepts ∧ ∃ rest, rest = frcoreDmaGather drv dir
          (localAddr + BitVec.ofInt 64 (drv.piece size))
          (remoteAddr + BitVec.ofInt 64 (drv.piece size))
          (size - drv.piece size) (fun k => env (k + 1)) ∧
        frcoreDmaGather drv dir localAddr remoteAddr size env =
          (rest.1, .take comp :: (dmaIssue dir (gatherPointers drv
            (drv.piece size) (drv.phys localAddr) remoteAddr) (env 0) comp).2 ++
              rest.2)) := by
  rw [frcoreDmaGather, if_neg h]
  rcases gatherOne_cases drv dir h localAddr remoteAddr (env 0) with
    ⟨hnone, hround⟩ | ⟨comp, hsome, hround⟩
  · refine .inl ⟨fun haccepts => ?_, ?_⟩
    · rw [DmaEnv.Accepts, hnone] at haccepts
      cases haccepts.1
    · simp only [hround]
      exact if_pos fun heq => by cases heq
  · refine .inr ⟨comp, ?_⟩
    simp only [hround]
    by_cases hrv : (env 0).rv = 0
    · refine .inr ⟨⟨hsome ▸ rfl, hrv⟩, _, rfl, ?_⟩
      exact if_neg (not_not_intro (issue_success_iff.mpr hrv))
    · exact .inl ⟨hrv, if_pos fun heq => hrv (issue_success_iff.mp heq)⟩

/-- Every command completes that is accepted after accepted ones. -/
def PciDriver.AllComplete (size : Int) (env : Nat → DmaEnv) : Prop :=
  ∀ k < drv.rounds size, (∀ j < k, (env j).Accepts) → (env k).Completes

theorem allComplete_iff {size : Int} (h : size ≠ 0) (env : Nat → DmaEnv) :
    drv.AllComplete size env ↔ (env 0).Completes ∧ ((env 0).Accepts →
      drv.AllComplete (size - drv.piece size) fun k => env (k + 1)) := by
  simp only [PciDriver.AllComplete, rounds_succ drv h]
  constructor
  · intro hall
    refine ⟨hall 0 (Nat.succ_pos _) fun j hj => absurd hj (Nat.not_lt_zero j),
      fun hfirst k hk haccepts => hall (k + 1) (by omega) ?_⟩
    intro j hj
    cases j with
    | zero => exact hfirst
    | succ j => exact haccepts j (by omega)
  · rintro ⟨hfirst, hrest⟩ k hk haccepts
    cases k with
    | zero => exact hfirst
    | succ k =>
        exact hrest (haccepts 0 (Nat.succ_pos k)) k (by omega)
          fun j hj => haccepts (j + 1) (by omega)

/-- A round that succeeds, with the rounds behind it. -/
theorem trusted_cons_iff {pointers : List DmaPointer} {env : DmaEnv}
    {comp : Nat} (hrv : env.rv = 0) (rest : Fre × List DmaEvent) :
    DmaTrusted (rest.1, .take comp :: (dmaIssue dir pointers env comp).2 ++
        rest.2) ↔
      writtenBy env.done dmaWaitInterval = true ∧ DmaTrusted rest := by
  have hsettled := @settled_issue_iff dir pointers env comp rest.2
  have hsubmitted := @submitted_issue dir pointers env comp rest.2
  constructor
  · rintro ⟨hsuccess, hstops, hsettle⟩
    obtain ⟨hwritten, hrest⟩ := hsettled.mp hsettle
    simp only [hsubmitted] at hsuccess hstops
    refine ⟨hwritten hrv, ?_, ?_, hrest⟩
    · exact fun h cmd hcmd => hsuccess h cmd (List.mem_cons_of_mem _ hcmd)
    · intro cmd hcmd
      have hne : submitted rest.2 ≠ [] := by
        rintro hnil
        rw [hnil] at hcmd
        exact List.not_mem_nil hcmd
      rw [List.dropLast_cons_of_ne_nil hne] at hstops
      exact hstops cmd (List.mem_cons_of_mem _ hcmd)
  · rintro ⟨hwritten, hrest⟩
    refine ⟨?_, ?_, hsettled.mpr ⟨fun _ => hwritten, hrest.settled⟩⟩
    · intro h cmd hcmd
      simp only [hsubmitted] at hcmd
      rcases List.mem_cons.mp hcmd with rfl | hcmd
      · exact ⟨hrv, hwritten⟩
      · exact hrest.success h cmd hcmd
    · intro cmd hcmd
      simp only [hsubmitted] at hcmd
      by_cases hnil : submitted rest.2 = []
      · rw [hnil] at hcmd
        exact absurd hcmd List.not_mem_nil
      · rw [List.dropLast_cons_of_ne_nil hnil] at hcmd
        rcases List.mem_cons.mp hcmd with rfl | hcmd
        · exact ⟨hrv, hwritten⟩
        · exact hrest.stops cmd hcmd

theorem frcoreDmaGather_trusted_iff (localAddr remoteAddr : BitVec 64)
    (size : Int) (env : Nat → DmaEnv) :
    DmaTrusted (frcoreDmaGather drv dir localAddr remoteAddr size env) ↔
      drv.AllComplete size env := by
  induction hn : size.natAbs using Nat.strongRecOn
    generalizing size localAddr remoteAddr env with
  | ind n ih =>
      by_cases hzero : size = 0
      · subst hzero
        rw [frcoreDmaGather, if_pos rfl]
        refine iff_of_true (trusted_nil _) fun k hk => ?_
        rw [rounds_zero] at hk
        exact absurd hk (Nat.not_lt_zero k)
      · rw [allComplete_iff drv hzero]
        rcases gather_cases drv dir hzero localAddr remoteAddr env with
          ⟨hnot, hgather⟩ | ⟨comp, ⟨hrv, hgather⟩ | ⟨haccepts, rest, hrest,
            hgather⟩⟩
        · rw [hgather]
          exact iff_of_true (trusted_nil _)
            ⟨fun h => absurd h hnot, fun h => absurd h hnot⟩
        · have hnot : ¬ (env 0).Accepts := fun h => hrv h.2
          rw [hgather]
          exact iff_of_true (issue_trusted_iff.mpr fun h => absurd h hrv)
            ⟨fun h => absurd h hnot, fun h => absurd h hnot⟩
        · rw [hgather, trusted_cons_iff dir haccepts.2, hrest,
            ih _ (hn ▸ drv.piece_lt hzero) _ _ _ _ rfl]
          exact and_congr ⟨fun h _ => h, fun h => h haccepts⟩
            ⟨fun h _ => h, fun h => h haccepts⟩

/-- Each of the three calls can be trusted exactly when every command that it
gives to the driver and that is accepted completes while the core polls. -/
theorem dmaCalls_trusted_iff (desc : FrcoreDmaScatterDesc)
    (localAddr remoteAddr : BitVec 64) (size : Int) (env : Nat → DmaEnv) :
    (DmaTrusted (frcoreDmaScatter drv dir desc (env 0)) ↔
      (desc.Fits drv → (env 0).Completes)) ∧
    (DmaTrusted (frcoreDmaGatherOne drv size localAddr remoteAddr dir (env 0)) ↔
      (size ≠ 0 → size ≤ drv.buffMax → (env 0).Completes)) ∧
    (DmaTrusted (frcoreDmaGather drv dir localAddr remoteAddr size env) ↔
      drv.AllComplete size env) :=
  ⟨frcoreDmaScatter_trusted_iff drv dir desc (env 0),
    frcoreDmaGatherOne_trusted_iff drv dir size localAddr remoteAddr (env 0),
    frcoreDmaGather_trusted_iff drv dir localAddr remoteAddr size env⟩

end Calls

/-- A driver with buffers of 4096 bytes and 15 pointers. -/
def smallDriver : PciDriver where
  maxLocalBuf := 4096
  maxPointers := 15
  phys := id
  maxLocalBuf_pos := by decide
  maxPointers_pos := by decide

/-- The first command is accepted and never completes. -/
theorem lostCommand_not_trusted :
    ¬ ∀ (drv : PciDriver) (dir : DmaDir) (localAddr remoteAddr : BitVec 64)
      (size : Int) (env : Nat → DmaEnv),
      DmaTrusted (frcoreDmaGather drv dir localAddr remoteAddr size env) := by
  intro h
  have hcomplete := (frcoreDmaGather_trusted_iff smallDriver .send 0 0 8
    fun _ => ⟨some 0, 0, none⟩).mp (h smallDriver .send 0 0 8 _)
  have hfirst := hcomplete 0 (by decide)
    (fun j hj => absurd hj (Nat.not_lt_zero j)) ⟨rfl, rfl⟩
  exact absurd hfirst (by decide)

end Barley
