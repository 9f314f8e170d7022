/-
How the calls that move data cut a range: into commands, and each command into
pieces that the driver takes.
-/
import Barley.DmaLaw

namespace Barley

/-- The bytes that a pointer moves, each with its local and its remote
address. -/
def DmaPointer.bytes (pointer : DmaPointer) : List (BitVec 64 × BitVec 64) :=
  (List.range pointer.size.toNat).map fun i =>
    (pointer.localAddr + BitVec.ofNat 64 i,
      pointer.remoteAddr + BitVec.ofNat 64 i)

/-- The bytes that the commands of a call move, in their order. -/
def movedBytes (events : List DmaEvent) : List (BitVec 64 × BitVec 64) :=
  (submitted events).flatMap fun cmd => cmd.pointers.flatMap DmaPointer.bytes

/-- Byte `i` of a range: its local address, which counts from the translated
start of its command, and its remote address. -/
def PciDriver.byteAt (drv : PciDriver) (localAddr remoteAddr : BitVec 64)
    (i : Nat) : BitVec 64 × BitVec 64 :=
  (drv.phys (localAddr + BitVec.ofNat 64 (i / drv.buffMax * drv.buffMax)) +
      BitVec.ofNat 64 (i % drv.buffMax),
    remoteAddr + BitVec.ofNat 64 i)

/-- The addresses of a local range are translated by one offset. -/
def PciDriver.Contiguous (drv : PciDriver) (localAddr : BitVec 64)
    (size : Int) : Prop :=
  ∀ i < size.toNat, drv.phys (localAddr + BitVec.ofNat 64 i) =
    drv.phys localAddr + BitVec.ofNat 64 i

/-- The commands of a call move the bytes of the range one after the other,
from the first one on, and all of them if the call succeeds; the pieces are not
empty and fit the driver's buffers, and so do the pointers of a command. -/
structure DmaSplit (drv : PciDriver) (localAddr remoteAddr : BitVec 64)
    (size : Int) (result : Fre × List DmaEvent) : Prop where
  moved : ∃ sent ≤ size.toNat, movedBytes result.2 =
      (List.range sent).map (drv.byteAt localAddr remoteAddr) ∧
    (result.1 = .success → sent = size.toNat)
  pieces : ∀ cmd ∈ submitted result.2, ∀ pointer ∈ cmd.pointers,
    0 < pointer.size ∧ pointer.size ≤ drv.maxLocalBuf
  pointers : ∀ cmd ∈ submitted result.2,
    cmd.pointers.length ≤ drv.maxPointers

/-- What is cut off a range: as much as there may be, or what there is. -/
theorem cut_cases {max size : Nat} (hmax : 0 < max) (h : size ≠ 0) :
    ∃ cur rest : Nat, size = cur + rest ∧ 0 < cur ∧ cur ≤ max ∧
      (rest ≠ 0 → cur = max) ∧
      (if (max : Int) < size then (max : Int) else size) = cur ∧
      (size : Int) - cur = rest := by
  by_cases hlarge : (max : Int) < size
  · obtain ⟨rest, rfl⟩ :=
      Nat.exists_eq_add_of_le (Nat.le_of_lt (Int.ofNat_lt.mp hlarge))
    refine ⟨max, rest, rfl, hmax, Nat.le_refl _, fun _ => rfl, ?_, by omega⟩
    rw [if_pos hlarge]
  · refine ⟨size, 0, rfl, Nat.pos_of_ne_zero h, by omega, fun hne => ?_, ?_,
      Int.sub_self _⟩
    · exact absurd rfl hne
    · rw [if_neg hlarge]

section Pieces

variable (drv : PciDriver)

/-- Moving on by some bytes, and counting from there. -/
theorem add_ofNat_add (addr : BitVec 64) (cur i : Nat) :
    addr + BitVec.ofNat 64 cur + BitVec.ofNat 64 i =
      addr + BitVec.ofNat 64 (cur + i) := by
  rw [BitVec.add_assoc, BitVec.ofNat_add]

/-- A range that is not empty begins with a piece, which is a full one unless
it is the last. -/
theorem gatherPointers_cons {size : Nat} (h : size ≠ 0)
    (localAddr remoteAddr : BitVec 64) :
    ∃ cur rest : Nat, size = cur + rest ∧ 0 < cur ∧ cur ≤ drv.maxLocalBuf ∧
      (rest ≠ 0 → cur = drv.maxLocalBuf) ∧
      gatherPointers drv size localAddr remoteAddr =
        ⟨localAddr, remoteAddr, cur⟩ ::
          gatherPointers drv rest (localAddr + BitVec.ofNat 64 cur)
            (remoteAddr + BitVec.ofNat 64 cur) := by
  obtain ⟨cur, rest, hsize, hcur, hmax, hfull, hpiece, hrest⟩ :=
    cut_cases drv.maxLocalBuf_pos h
  refine ⟨cur, rest, hsize, hcur, hmax, hfull, ?_⟩
  rw [gatherPointers, if_neg (Int.natCast_ne_zero.mpr h)]
  simp only [hpiece, hrest, BitVec.ofInt_natCast]

/-- What holds of no pieces at all, and of a piece in front of the others,
holds of the pieces of every range. -/
theorem gatherPointers_rec
    {P : Nat → BitVec 64 → BitVec 64 → List DmaPointer → Prop}
    (nil : ∀ localAddr remoteAddr, P 0 localAddr remoteAddr [])
    (cons : ∀ (cur rest : Nat) (localAddr remoteAddr : BitVec 64)
      (later : List DmaPointer), 0 < cur → cur ≤ drv.maxLocalBuf →
      (rest ≠ 0 → cur = drv.maxLocalBuf) →
      P rest (localAddr + BitVec.ofNat 64 cur)
        (remoteAddr + BitVec.ofNat 64 cur) later →
      P (cur + rest) localAddr remoteAddr
        (⟨localAddr, remoteAddr, cur⟩ :: later))
    (size : Nat) (localAddr remoteAddr : BitVec 64) :
    P size localAddr remoteAddr
      (gatherPointers drv size localAddr remoteAddr) := by
  induction size using Nat.strongRecOn generalizing localAddr remoteAddr with
  | ind size ih =>
      by_cases hzero : size = 0
      · subst hzero
        rw [gatherPointers]
        exact nil localAddr remoteAddr
      · obtain ⟨cur, rest, rfl, hcur, hmax, hfull, hpieces⟩ :=
          gatherPointers_cons drv hzero localAddr remoteAddr
        rw [hpieces]
        exact cons cur rest _ _ _ hcur hmax hfull (ih rest (by omega) _ _)

/-- The pieces of a command hold the bytes of its range, in their order. -/
theorem gatherPointers_bytes (size : Nat) (localAddr remoteAddr : BitVec 64) :
    (gatherPointers drv size localAddr remoteAddr).flatMap DmaPointer.bytes =
      (List.range size).map fun i => (localAddr + BitVec.ofNat 64 i,
        remoteAddr + BitVec.ofNat 64 i) := by
  refine gatherPointers_rec drv
    (P := fun size localAddr remoteAddr pointers =>
      pointers.flatMap DmaPointer.bytes = (List.range size).map fun i =>
        (localAddr + BitVec.ofNat 64 i, remoteAddr + BitVec.ofNat 64 i))
    (fun _ _ => rfl) ?_ size localAddr remoteAddr
  intro cur rest localAddr remoteAddr later _ _ _ hlater
  rw [List.flatMap_cons, hlater, List.range_add, List.map_append,
    List.map_map]
  refine congrArg (_ ++ ·) (List.map_congr_left fun i _ => ?_)
  simp only [Function.comp_apply, add_ofNat_add]

theorem gatherPointers_pieces (size : Nat) (localAddr remoteAddr : BitVec 64) :
    ∀ pointer ∈ gatherPointers drv size localAddr remoteAddr,
      0 < pointer.size ∧ pointer.size ≤ drv.maxLocalBuf := by
  refine gatherPointers_rec drv
    (P := fun _ _ _ pointers => ∀ pointer ∈ pointers,
      0 < pointer.size ∧ pointer.size ≤ drv.maxLocalBuf)
    (fun _ _ _ h => absurd h List.not_mem_nil) ?_ size localAddr remoteAddr
  intro cur rest localAddr remoteAddr later hcur hmax _ hlater
  exact List.forall_mem_cons.mpr
    ⟨⟨Int.natCast_pos.mpr hcur, Int.ofNat_le.mpr hmax⟩, hlater⟩

/-- All pieces but the last one are full, so there are not too many. -/
theorem gatherPointers_length (size : Nat) (localAddr remoteAddr : BitVec 64) :
    ∀ count, size ≤ count * drv.maxLocalBuf →
      (gatherPointers drv size localAddr remoteAddr).length ≤ count := by
  refine gatherPointers_rec drv
    (P := fun size _ _ pointers => ∀ count,
      size ≤ count * drv.maxLocalBuf → pointers.length ≤ count)
    (fun _ _ count _ => Nat.zero_le count) ?_ size localAddr remoteAddr
  intro cur rest localAddr remoteAddr later hcur _ hfull hlater count hsize
  cases count with
  | zero => omega
  | succ count =>
      rw [List.length_cons]
      refine Nat.succ_le_succ (hlater count ?_)
      by_cases hlast : rest = 0
      · rw [hlast]
        exact Nat.zero_le _
      · rw [hfull hlast, Nat.succ_mul] at hsize
        omega

end Pieces

section Calls

variable (drv : PciDriver) (dir : DmaDir) (localAddr remoteAddr : BitVec 64)

/-- Within the first command, the translated start is that of the range. -/
theorem byteAt_of_lt {i : Nat} (h : i < drv.buffMax) :
    drv.byteAt localAddr remoteAddr i =
      (drv.phys localAddr + BitVec.ofNat 64 i,
        remoteAddr + BitVec.ofNat 64 i) := by
  rw [PciDriver.byteAt, Nat.div_eq_of_lt h, Nat.mod_eq_of_lt h, Nat.zero_mul]
  rw [show BitVec.ofNat 64 0 = 0#64 from rfl, BitVec.add_zero]

/-- Behind a full command, the count starts again. -/
theorem byteAt_add (i : Nat) :
    drv.byteAt localAddr remoteAddr (drv.buffMax + i) =
      drv.byteAt (localAddr + BitVec.ofNat 64 drv.buffMax)
        (remoteAddr + BitVec.ofNat 64 drv.buffMax) i := by
  have hpos := drv.buffMax_pos
  have hmul : (drv.buffMax + i) / drv.buffMax * drv.buffMax =
      drv.buffMax + i / drv.buffMax * drv.buffMax := by
    rw [Nat.add_div_left i hpos, Nat.succ_mul, Nat.add_comm]
  rw [PciDriver.byteAt, PciDriver.byteAt, hmul, Nat.add_mod_left,
    add_ofNat_add, add_ofNat_add]

/-- In a range that is translated as a whole, every byte is moved at the
translation of its own address. -/
theorem byteAt_of_contiguous {size : Int}
    (h : drv.Contiguous localAddr size) {i : Nat} (hi : i < size.toNat) :
    drv.byteAt localAddr remoteAddr i =
      (drv.phys (localAddr + BitVec.ofNat 64 i),
        remoteAddr + BitVec.ofNat 64 i) := by
  have hsplit : i / drv.buffMax * drv.buffMax + i % drv.buffMax = i :=
    Nat.div_add_mod' i drv.buffMax
  have hstart : i / drv.buffMax * drv.buffMax < size.toNat := by omega
  rw [PciDriver.byteAt, h _ hstart, h i hi, add_ofNat_add, hsplit]

/-- What a round of `frcore_dma_gather` takes off a range. -/
theorem piece_cases {size : Nat} (h : size ≠ 0) :
    ∃ cur rest : Nat, size = cur + rest ∧ 0 < cur ∧ cur ≤ drv.buffMax ∧
      (rest ≠ 0 → cur = drv.buffMax) ∧ drv.piece size = cur ∧
      (size : Int) - drv.piece size = rest := by
  obtain ⟨cur, rest, hsize, hpos, hcur, hfull, hpiece, hrest⟩ :=
    cut_cases drv.buffMax_pos h
  rw [← PciDriver.piece] at hpiece
  rw [← hpiece] at hrest
  exact ⟨cur, rest, hsize, hpos, hcur, hfull, hpiece, hrest⟩

variable {drv localAddr remoteAddr}

theorem split_nil {size : Int} {rv : Fre}
    (h : rv = .success → size.toNat = 0) :
    DmaSplit drv localAddr remoteAddr size (rv, []) :=
  ⟨⟨0, Nat.zero_le _, rfl, fun hrv => (h hrv).symm⟩,
    fun _ hcmd => absurd hcmd List.not_mem_nil,
    fun _ hcmd => absurd hcmd List.not_mem_nil⟩

section Command

variable {cur : Nat} {env : DmaEnv} {comp : Nat}

/-- The command that a round issues, and what comes after it. -/
theorem movedBytes_issue (hcur : cur ≤ drv.buffMax) (rest : List DmaEvent) :
    movedBytes (.take comp :: (dmaIssue dir (gatherPointers drv cur
        (drv.phys localAddr) remoteAddr) env comp).2 ++ rest) =
      (List.range cur).map (drv.byteAt localAddr remoteAddr) ++
        movedBytes rest := by
  rw [movedBytes, submitted_issue, List.flatMap_cons, gatherPointers_bytes]
  refine congrArg (· ++ _) (List.map_congr_left fun i hi => ?_)
  have hlt := List.mem_range.mp hi
  rw [byteAt_of_lt drv localAddr remoteAddr (by omega)]

/-- The rounds after a full one move the bytes behind its own. -/
theorem DmaSplit.cons {rest : Nat} {later : Fre × List DmaEvent}
    (hcur : cur ≤ drv.buffMax) (hfull : rest ≠ 0 → cur = drv.buffMax)
    (h : DmaSplit drv (localAddr + BitVec.ofNat 64 cur)
      (remoteAddr + BitVec.ofNat 64 cur) rest later) :
    DmaSplit drv localAddr remoteAddr ((cur + rest : Nat) : Int) (later.1,
      .take comp :: (dmaIssue dir (gatherPointers drv cur
        (drv.phys localAddr) remoteAddr) env comp).2 ++ later.2) := by
  obtain ⟨⟨sent, hsent, hmoved, hsuccess⟩, hpieces, hpointers⟩ := h
  rw [Int.toNat_natCast] at hsent hsuccess
  refine ⟨⟨cur + sent, ?_, ?_, fun h => ?_⟩, ?_, ?_⟩
  · rw [Int.toNat_natCast]
    exact Nat.add_le_add_left hsent cur
  · rw [movedBytes_issue dir hcur, hmoved, List.range_add, List.map_append,
      List.map_map]
    refine congrArg (_ ++ ·) (List.map_congr_left fun i hi => ?_)
    have hlt := List.mem_range.mp hi
    obtain rfl := hfull (by omega)
    exact (byteAt_add drv localAddr remoteAddr i).symm
  · rw [Int.toNat_natCast, hsuccess h]
  · simp only [submitted_issue, List.forall_mem_cons]
    exact ⟨gatherPointers_pieces drv cur _ _, hpieces⟩
  · simp only [submitted_issue, List.forall_mem_cons]
    exact ⟨gatherPointers_length drv cur _ _ _ hcur, hpointers⟩

/-- A command with nothing after it. -/
theorem DmaSplit.single {rest : Nat} (hcur : cur ≤ drv.buffMax)
    (hfull : rest ≠ 0 → cur = drv.buffMax) {rv : Fre}
    (hrv : rv = .success → rest = 0) :
    DmaSplit drv localAddr remoteAddr ((cur + rest : Nat) : Int) (rv,
      .take comp :: (dmaIssue dir (gatherPointers drv cur
        (drv.phys localAddr) remoteAddr) env comp).2) := by
  have hlast : DmaSplit drv (localAddr + BitVec.ofNat 64 cur)
      (remoteAddr + BitVec.ofNat 64 cur) rest (rv, []) := split_nil hrv
  rw [← List.append_nil (.take comp :: (dmaIssue dir (gatherPointers drv cur
    (drv.phys localAddr) remoteAddr) env comp).2)]
  exact hlast.cons dir hcur hfull

end Command

theorem frcoreDmaGatherOne_split {size : Nat} (hsize : size ≠ 0)
    (env : DmaEnv) :
    DmaSplit drv localAddr remoteAddr size
      (frcoreDmaGatherOne drv size localAddr remoteAddr dir env) := by
  rw [frcoreDmaGatherOne, if_neg (Int.natCast_ne_zero.mpr hsize)]
  split
  case isTrue => exact split_nil fun h => by cases h
  case isFalse hsmall =>
    cases env.comp with
    | none => exact split_nil fun h => by cases h
    | some comp =>
        have hcur : size ≤ drv.buffMax := by omega
        have hnone : 0 ≠ 0 → size = drv.buffMax := fun h => absurd rfl h
        exact .single dir hcur hnone fun _ => rfl

theorem frcoreDmaGather_split (size : Nat) (localAddr remoteAddr : BitVec 64)
    (env : Nat → DmaEnv) :
    DmaSplit drv localAddr remoteAddr size
      (frcoreDmaGather drv dir localAddr remoteAddr size env) := by
  induction size using Nat.strongRecOn
    generalizing localAddr remoteAddr env with
  | ind size ih =>
      by_cases hzero : (size : Int) = 0
      · rw [frcoreDmaGather, if_pos hzero]
        exact split_nil fun _ => by omega
      · obtain ⟨cur, rest, rfl, hpos, hcur, hfull, hpiece, hrest⟩ :=
          piece_cases drv (Int.natCast_ne_zero.mp hzero)
        rcases gather_cases drv dir hzero localAddr remoteAddr env with
          ⟨_, hgather⟩ | ⟨comp, ⟨hrv, hgather⟩ | ⟨_, later, hlater, hgather⟩⟩
        · rw [hgather]
          exact split_nil fun h => by cases h
        · rw [hgather, hpiece]
          exact .single dir hcur hfull fun h =>
            absurd (issue_success_iff.mp h) hrv
        · rw [hrest, hpiece, BitVec.ofInt_natCast] at hlater
          rw [hgather, hpiece, hlater]
          exact (ih rest (by omega) _ _ _).cons dir hcur hfull

/-- The call succeeds when each of its rounds finds a completion pointer and
its command is accepted. -/
theorem frcoreDmaGather_success_iff (size : Nat)
    (localAddr remoteAddr : BitVec 64) (env : Nat → DmaEnv) :
    (frcoreDmaGather drv dir localAddr remoteAddr size env).1 = .success ↔
      ∀ k < drv.rounds size, (env k).Accepts := by
  induction size using Nat.strongRecOn
    generalizing localAddr remoteAddr env with
  | ind size ih =>
      by_cases hzero : (size : Int) = 0
      · rw [frcoreDmaGather, if_pos hzero, hzero, rounds_zero]
        exact iff_of_true rfl fun k hk => absurd hk (Nat.not_lt_zero k)
      · obtain ⟨cur, rest, rfl, hpos, _, _, hpiece, hrest⟩ :=
          piece_cases drv (Int.natCast_ne_zero.mp hzero)
        rw [rounds_succ drv hzero, hrest, Nat.forall_lt_succ_left]
        rcases gather_cases drv dir hzero localAddr remoteAddr env with
          ⟨hnot, hgather⟩ | ⟨comp, ⟨hrv, hgather⟩ | ⟨haccepts, later, hlater,
            hgather⟩⟩
        · rw [hgather]
          exact iff_of_false (fun h => by cases h) fun h => hnot h.1
        · rw [hgather]
          exact iff_of_false (fun h => hrv (issue_success_iff.mp h))
            fun h => hrv h.1.2
        · rw [hrest] at hlater
          rw [hgather, hlater]
          exact (ih rest (by omega) _ _ _).trans (and_iff_right haccepts).symm

/-- For every range that is not empty, the pieces of the commands hold exactly
its bytes, in their order, on both sides: all of them if the call succeeds,
which it does when every command is accepted.  Each piece fits the driver's
buffers, and the pieces of each command its pointers. -/
theorem frcoreDmaGather_partitions (drv : PciDriver) (dir : DmaDir)
    (localAddr remoteAddr : BitVec 64) {size : Int} (hsize : 0 < size)
    (env : Nat → DmaEnv) :
    DmaSplit drv localAddr remoteAddr size
      (frcoreDmaGatherOne drv size localAddr remoteAddr dir (env 0)) ∧
    DmaSplit drv localAddr remoteAddr size
      (frcoreDmaGather drv dir localAddr remoteAddr size env) ∧
    ((frcoreDmaGather drv dir localAddr remoteAddr size env).1 = .success ↔
      ∀ k < drv.rounds size, (env k).Accepts) ∧
    (drv.Contiguous localAddr size → ∀ i < size.toNat,
      drv.byteAt localAddr remoteAddr i =
        (drv.phys (localAddr + BitVec.ofNat 64 i),
          remoteAddr + BitVec.ofNat 64 i)) := by
  obtain ⟨size, rfl⟩ := Int.eq_ofNat_of_zero_le (Int.le_of_lt hsize)
  exact ⟨frcoreDmaGatherOne_split dir (by omega) (env 0),
    frcoreDmaGather_split dir size localAddr remoteAddr env,
    frcoreDmaGather_success_iff dir size localAddr remoteAddr env,
    fun h _ hi => byteAt_of_contiguous drv localAddr remoteAddr h hi⟩

end Calls

/-- A range that takes two commands, the first of which is full. -/
theorem frcoreDmaGather_partitions_two :
    movedBytes (frcoreDmaGather smallDriver .send 0 0 70000
        fun _ => ⟨some 0, 0, some 0⟩).2 =
      (List.range 70000).map (smallDriver.byteAt 0 0) := by
  obtain ⟨_, ⟨⟨sent, _, hmoved, hall⟩, _, _⟩, hsuccess, _⟩ :=
    frcoreDmaGather_partitions smallDriver .send 0 0
      (show (0 : Int) < 70000 by decide) fun _ => ⟨some 0, 0, some 0⟩
  rw [hmoved, hall (hsuccess.mpr fun _ _ => ⟨rfl, rfl⟩)]
  rfl

end Barley
