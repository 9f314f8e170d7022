/-
The books of the data path.  Whatever the cores find in the shared words, and
in whatever order their additions reach the counters, the counters agree with
each other and with what became of the works.  A packet on the way to the host
that comes while its port is off is the only one that is freed and not counted.
-/
import Barley.DataPath

namespace Barley

namespace DataPath

open Registers (share sum)

variable {seen : IpcSeen} {core : Nat} {work : DataWork}

/-- The checks count in these. -/
def checkStats : List DataStat :=
  [.ipcSmacOrdered, .ipcSmacDisorder, .ipcHeadValid, .ipcHeadInvalid,
    .ipcPktidOrdered, .ipcPktidDisorder, .ipcPktidRepeat, .vlan]

/-- A counter of packets of a port. -/
def OfPort : DataStat → Bool
  | .totalRcvd _ | .totalFwd _ | .errPko _ => true
  | _ => false

/-- A counter that does not depend on the contents of a packet. -/
def Plain : DataStat → Bool
  | .totalBytes _ | .coreWqe _ | .rxBytes => false
  | stat => !OfPort stat && stat ∉ checkStats

/-- What a length is counted in. -/
def lengthEnds : List (List DataStat) :=
  [[.pktsBelow64, .veryShortPkts], [.pktsBetween64And128, .normalPkts],
    [.pktsBetween128And256, .normalPkts], [.pktsBetween256And512, .normalPkts],
    [.pktsBetween512And1024, .normalPkts],
    [.pktsBetween1024And1500, .normalPkts],
    [.pktsBetween1500And1600, .normalPkts], [.pktsAbove1600, .veryLongPkts]]

/-- What a recorded packet is counted in, and how its pass ends. -/
def packetEnds : List (List DataStat × FrcoreAct) :=
  [([.dropPortOff], .drop), ([.rxErrs, .dropRxError], .drop),
    ([.rxPkts, .rxErrs, .ipcDropSmacZero], .drop), ([.rxPkts], .free),
    ([.rxPkts, .ipOption, .dropIpOption], .drop),
    ([.rxPkts, .ipV6, .dropIpV6], .drop)]

/-- What a work is counted in, and what becomes of it. -/
def workEnds : List (List DataStat × Fate) :=
  ([.actUnfree], .kept) :: ([.workUnkown, .actDrop, .workFree], .freed) ::
    [DataStat.p0RxPkts, DataStat.p1RxPkts].flatMap fun port =>
      ([.workData, port], .forwarded) :: ([.workData, port], .discarded) ::
        lengthEnds.flatMap fun length =>
          packetEnds.map fun (stats, act) =>
            ([.workData, port] ++ (length ++ stats) ++
              [if act = .free then .actFree else .actDrop, .workFree], .freed)

section Shares

variable {group : List DataStat}

theorem share_map_inc (stats : List DataStat) :
    share group (stats.map DataStat.inc) =
      BitVec.ofNat 64 (stats.countP (· ∈ group)) := by
  induction stats with
  | nil => rfl
  | cons stat stats ih =>
      rw [List.map_cons, Registers.share_cons, ih, List.countP_cons,
        Nat.add_comm, BitVec.ofNat_add]
      by_cases hmem : stat ∈ group
      · simp [DataStat.inc, hmem]
      · simp [DataStat.inc, hmem]

/-- A length is in one of the classes. -/
theorem kindsOfPktLenStat_ends (len : Nat) :
    ∃ stats ∈ lengthEnds, kindsOfPktLenStat len = stats.map DataStat.inc := by
  unfold kindsOfPktLenStat
  split_ifs
  all_goals first | omega | simp [lengthEnds, DataStat.inc]

/-- All that the checks of a pass count. -/
def checksOf (seen : IpcSeen) (work : DataWork) : List DataCount :=
  smacStats work seen ++ headStats work seen ++ pktidStats work seen ++
    if vlanDist work.ether then [DataStat.vlan.inc] else []

theorem smacChecked_mem (csmac psmac : BitVec 64) :
    (smacChecked csmac psmac).1 ∈ checkStats := by
  unfold smacChecked
  split_ifs <;> simp [checkStats]

theorem pktidChecked_mem (cpid ppid : BitVec 64) :
    (pktidChecked cpid ppid).1 ∈ checkStats := by
  unfold pktidChecked
  split_ifs <;> simp [checkStats]

theorem checksOf_mem : ∀ e ∈ checksOf seen work, e.1 ∈ checkStats := by
  have hcond : ∀ (c : Prop) [Decidable c] (stat : DataStat),
      stat ∈ checkStats → ∀ e ∈ if c then [stat.inc] else [],
        e.1 ∈ checkStats := by
    intro c _ stat hstat e hmem
    split_ifs at hmem
    · rw [List.mem_singleton.mp hmem]
      exact hstat
    · cases hmem
  intro e hmem
  simp only [checksOf, List.mem_append] at hmem
  rcases hmem with ((hmem | hmem) | hmem) | hmem
  · exact hcond _ _ (smacChecked_mem ..) e hmem
  · unfold headStats at hmem
    split_ifs at hmem
    · exact hcond True .ipcHeadValid (by decide) e hmem
    · exact hcond True .ipcHeadInvalid (by decide) e hmem
    · cases hmem
  · exact hcond _ _ (pktidChecked_mem ..) e hmem
  · exact hcond _ .vlan (by decide) e hmem

variable (hplain : ∀ stat ∈ group, Plain stat = true)

include hplain

theorem notMem_of_not_plain {stat : DataStat} (h : Plain stat = false) :
    stat ∉ group := by
  intro hmem
  rw [hplain stat hmem] at h
  cases h

theorem share_checksOf : share group (checksOf seen work) = 0 := by
  apply Registers.share_eq_zero group checksOf_mem
  have hchecks : ∀ stat ∈ checkStats, Plain stat = false := by decide
  intro stat hstat
  exact notMem_of_not_plain hplain (hchecks stat hstat)

theorem share_receivedStats (work : DataWork) :
    share group (receivedStats work) =
      share group (kindsOfPktLenStat work.len.toNat) +
        share group [DataStat.rxPkts.inc] := by
  have hbytes := notMem_of_not_plain hplain (rfl : Plain .rxBytes = false)
  simp [receivedStats, hbytes]

end Shares

section Ends

/-- The entries count for plain counters as these do. -/
def CountsAs (entries : List DataCount) (stats : List DataStat) : Prop :=
  ∀ group : List DataStat, (∀ stat ∈ group, Plain stat = true) →
    share group entries = BitVec.ofNat 64 (stats.countP (· ∈ group))

theorem countsAs_inc (stats : List DataStat) :
    CountsAs (stats.map DataStat.inc) stats :=
  fun _ _ => share_map_inc stats

theorem CountsAs.append {first second : List DataCount}
    {stats more : List DataStat} (h : CountsAs first stats)
    (hmore : CountsAs second more) :
    CountsAs (first ++ second) (stats ++ more) := by
  intro group hplain
  rw [Registers.share_append, h group hplain, hmore group hplain,
    List.countP_append, BitVec.ofNat_add]

theorem countsAs_checksOf (seen : IpcSeen) (work : DataWork) :
    CountsAs (checksOf seen work) [] := by
  intro group hplain
  exact share_checksOf hplain

theorem CountsAs.received {length : List DataStat}
    (h : kindsOfPktLenStat work.len.toNat = length.map DataStat.inc) :
    CountsAs (receivedStats work) (length ++ [.rxPkts]) := by
  intro group hplain
  rw [share_receivedStats hplain, h, List.countP_append, BitVec.ofNat_add]
  exact congrArg₂ (· + ·) (share_map_inc length) (share_map_inc [.rxPkts])

/-- How a recorded packet ends. -/
theorem frcoreIpcWorkProcess_ends (seen : IpcSeen) (work : DataWork) :
    ∃ length ∈ lengthEnds, ∃ ends ∈ packetEnds,
      (frcoreIpcWorkProcess seen work).act = ends.2 ∧
      CountsAs (frcoreIpcWorkProcess seen work).stats (length ++ ends.1) := by
  obtain ⟨length, hlength, hkinds⟩ := kindsOfPktLenStat_ends work.len.toNat
  have hmeasured : CountsAs (kindsOfPktLenStat work.len.toNat) length := by
    rw [hkinds]
    exact countsAs_inc length
  have hreceived := CountsAs.received hkinds
  refine ⟨length, hlength, ?_⟩
  unfold frcoreIpcWorkProcess
  dsimp only
  split_ifs
  · exact ⟨([.dropPortOff], .drop), by decide, rfl,
      hmeasured.append (countsAs_inc [.dropPortOff])⟩
  · refine ⟨([.rxErrs, .dropRxError], .drop), by decide, rfl, ?_⟩
    have hends := (hmeasured.append (countsAs_inc [.rxErrs])).append
      (countsAs_inc [.dropRxError])
    rw [List.append_assoc length] at hends
    exact hends
  · refine ⟨([.rxPkts, .rxErrs, .ipcDropSmacZero], .drop), by decide, rfl, ?_⟩
    have hends := (hreceived.append (countsAs_inc [.rxErrs])).append
      (countsAs_inc [.ipcDropSmacZero])
    rw [List.append_assoc length, List.append_assoc length] at hends
    exact hends
  · show ∃ ends ∈ packetEnds, (protocolStats work).1 = ends.2 ∧
      CountsAs (receivedStats work ++ checksOf seen work ++
        (protocolStats work).2) _
    have hends : ∀ stats : List DataStat,
        CountsAs (receivedStats work ++ checksOf seen work ++
          stats.map DataStat.inc) (length ++ (.rxPkts :: stats)) := by
      intro stats
      have hall := (hreceived.append (countsAs_checksOf seen work)).append
        (countsAs_inc stats)
      rw [List.append_nil, List.append_assoc length] at hall
      exact hall
    unfold protocolStats
    dsimp only
    split_ifs
    · exact ⟨(_, .drop), by decide, rfl, hends [.ipOption, .dropIpOption]⟩
    · exact ⟨(_, .free), by decide, rfl, hends []⟩
    · exact ⟨(_, .drop), by decide, rfl, hends [.ipV6, .dropIpV6]⟩
    · exact ⟨(_, .free), by decide, rfl, hends []⟩

/-- A packet arrives at one of the ports. -/
theorem countsAs_arrival (core : Nat) (work : DataWork) :
    ∃ port ∈ [DataStat.p0RxPkts, DataStat.p1RxPkts],
      CountsAs [(DataStat.coreWqe core).inc, (.totalRcvd work.ipprt, 1),
        (.totalBytes work.ipprt, work.len.setWidth 64), DataStat.workData.inc,
        if work.ipprt = 0 then DataStat.p0RxPkts.inc
        else DataStat.p1RxPkts.inc] [.workData, port] := by
  have hport : ∀ port : DataStat,
      CountsAs [(DataStat.coreWqe core).inc, (.totalRcvd work.ipprt, 1),
        (.totalBytes work.ipprt, work.len.setWidth 64), DataStat.workData.inc,
        port.inc] [.workData, port] := by
    intro port group hplain
    have hcore := notMem_of_not_plain hplain
      (rfl : Plain (.coreWqe core) = false)
    have hrcvd := notMem_of_not_plain hplain
      (rfl : Plain (.totalRcvd work.ipprt) = false)
    have hbytes := notMem_of_not_plain hplain
      (rfl : Plain (.totalBytes work.ipprt) = false)
    rw [← share_map_inc]
    simp [DataStat.inc, hcore, hrcvd, hbytes]
  by_cases hzero : work.ipprt = 0
  · refine ⟨.p0RxPkts, by decide, ?_⟩
    rw [if_pos hzero]
    exact hport .p0RxPkts
  · refine ⟨.p1RxPkts, by decide, ?_⟩
    rw [if_neg hzero]
    exact hport .p1RxPkts

theorem mem_workEnds {port : DataStat} {length : List DataStat}
    {ends : List DataStat × FrcoreAct}
    (hport : port ∈ [DataStat.p0RxPkts, DataStat.p1RxPkts])
    (hlength : length ∈ lengthEnds) (hends : ends ∈ packetEnds) :
    ([.workData, port] ++ (length ++ ends.1) ++
      [if ends.2 = .free then .actFree else .actDrop, .workFree],
      Fate.freed) ∈ workEnds := by
  apply List.mem_cons_of_mem
  apply List.mem_cons_of_mem
  apply List.mem_flatMap.mpr
  refine ⟨port, hport, List.mem_cons_of_mem _ (List.mem_cons_of_mem _ ?_)⟩
  apply List.mem_flatMap.mpr
  exact ⟨length, hlength, List.mem_map.mpr ⟨ends, hends, rfl⟩⟩

/-- A packet on the way to the host is sent or freed, and only its port counts
it. -/
theorem frcoreForwardPacketToHost_ends (work : DataWork) :
    ((frcoreForwardPacketToHost work).fate = .forwarded ∨
      (frcoreForwardPacketToHost work).fate = .discarded) ∧
      CountsAs (frcoreForwardPacketToHost work).stats [] := by
  have hport : ∀ group : List DataStat,
      (∀ stat ∈ group, Plain stat = true) →
        DataStat.totalRcvd work.ipprt ∉ group ∧
          DataStat.totalBytes work.ipprt ∉ group ∧
          DataStat.totalFwd work.ipprt ∉ group ∧
          DataStat.errPko work.ipprt ∉ group := by
    intro group hplain
    exact ⟨notMem_of_not_plain hplain rfl, notMem_of_not_plain hplain rfl,
      notMem_of_not_plain hplain rfl, notMem_of_not_plain hplain rfl⟩
  unfold frcoreForwardPacketToHost CountsAs
  dsimp only
  split_ifs
  · refine ⟨.inr rfl, fun group hplain => ?_⟩
    simp [hport group hplain]
  · refine ⟨.inl rfl, fun group hplain => ?_⟩
    simp [hport group hplain]
  · refine ⟨.inr rfl, fun group hplain => ?_⟩
    simp [hport group hplain]

/-- A packet is freed or dropped. -/
theorem packetEnds_act :
    ∀ ends ∈ packetEnds, ends.2 = .free ∨ ends.2 = .drop := by
  decide

/-- How a work ends. -/
theorem frcoreWorkProcess_ends (seen : IpcSeen) (core : Nat)
    (work : DataWork) :
    ∃ ends ∈ workEnds, (frcoreWorkProcess seen core work).fate = ends.2 ∧
      CountsAs (frcoreWorkProcess seen core work).stats ends.1 := by
  unfold frcoreWorkProcess
  split
  · obtain ⟨port, hport, harrival⟩ := countsAs_arrival core work
    by_cases hmode : workMode seen work = 0
    · obtain ⟨length, hlength, ends, hends, hact, hstats⟩ :=
        frcoreIpcWorkProcess_ends seen work
      dsimp only
      rw [if_pos hmode]
      have hends' := mem_workEnds hport hlength hends
      have hfinish : CountsAs (actStats ends.2).1
          [if ends.2 = .free then .actFree else .actDrop, .workFree] ∧
          (actStats ends.2).2 = true := by
        rcases packetEnds_act ends hends with hfree | hdrop
        · rw [hfree]
          exact ⟨countsAs_inc [.actFree, .workFree], rfl⟩
        · rw [hdrop]
          exact ⟨countsAs_inc [.actDrop, .workFree], rfl⟩
      refine ⟨_, hends', ?_, ?_⟩
      · simp [WorkPass.finish, hact, hfinish.2]
      · rw [WorkPass.finish, hact]
        exact (harrival.append hstats).append hfinish.1
    · dsimp only
      rw [if_neg hmode]
      obtain ⟨hfate, hsent⟩ := frcoreForwardPacketToHost_ends work
      refine ⟨([.workData, port], (frcoreForwardPacketToHost work).fate), ?_,
        rfl, harrival.append hsent⟩
      apply List.mem_cons_of_mem
      apply List.mem_cons_of_mem
      refine List.mem_flatMap.mpr ⟨port, hport, ?_⟩
      rcases hfate with hfate | hfate
      · rw [hfate]
        exact List.mem_cons_self
      · rw [hfate]
        exact List.mem_cons_of_mem _ List.mem_cons_self
  · exact ⟨([.actUnfree], .kept), List.mem_cons_self, rfl,
      countsAs_inc [.actUnfree]⟩
  · exact ⟨([.workUnkown, .actDrop, .workFree], .freed),
      List.mem_cons_of_mem _ List.mem_cons_self, rfl,
      countsAs_inc [.workUnkown, .actDrop, .workFree]⟩

end Ends

section Insertion

theorem ofLittle_eq_zero_iff {bytes : List UInt8} :
    Bytes.ofLittle bytes = 0 ↔ ∀ byte ∈ bytes, byte = 0 := by
  induction bytes with
  | nil => simp [Bytes.ofLittle]
  | cons byte rest ih =>
      have hbyte : byte.toNat = 0 ↔ byte = 0 := by
        rw [← UInt8.toNat_inj, UInt8.toNat_zero]
      rw [Bytes.ofLittle, Nat.add_eq_zero_iff, hbyte, List.forall_mem_cons,
        ← ih]
      simp

/-- The first byte of the address counts least. -/
theorem psmac_eq (ether : List UInt8) :
    psmac ether = BitVec.ofNat 64 (Bytes.ofLittle
      ((List.range 6).map (fun k => ether.getD (6 + k) 0) ++ [0, 0])) := by
  have hlen : ((List.range 6).map (fun k => ether.getD (6 + k) 0) ++
      [0, 0]).length = 8 * 1 := by simp
  rw [psmac, swapBuff, Int.toNat_one, swapLoop_eq .big 1 (by omega)]
  simp only [Bytes.swapWords]
  rw [List.take_of_length_le (by omega), List.drop_of_length_le (by omega),
    List.append_nil, Bytes.load_big_reverse, Bytes.load]

theorem psmac_eq_zero_iff (ether : List UInt8) :
    psmac ether = 0 ↔ smacZero ether = true := by
  have hlt := Bytes.ofLittle_lt
    ((List.range 6).map (fun k => ether.getD (6 + k) 0) ++ [0, 0])
  rw [psmac_eq, ← BitVec.toNat_inj, BitVec.toNat_ofNat, Nat.mod_eq_of_lt]
  · show Bytes.ofLittle _ = 0 ↔ _
    rw [ofLittle_eq_zero_iff, List.forall_mem_append, List.forall_mem_map]
    simp [smacZero]
  · simpa using hlt

/-- A pass sends what has been shown to be sent. -/
theorem frcoreIpcWorkProcess_insertion (seen : IpcSeen) (work : DataWork) :
    (frcoreIpcWorkProcess seen work).insertion =
      Barley.frcoreIpcWorkProcess seen.instr seen.misc.toIpcMisc
        work.toIpcWork := by
  unfold frcoreIpcWorkProcess Barley.frcoreIpcWorkProcess
  simp only [psmac_eq_zero_iff]
  split_ifs with hoff herror hzero hipv4
  · rfl
  · rfl
  · rfl
  · exact if_pos hipv4
  · exact if_neg hipv4

end Insertion

section Books

/-- A work as a core gets it: what the core finds in the shared words, and the
number of the core. -/
abbrev DataRun := IpcSeen × Nat × DataWork

def DataRun.pass (run : DataRun) : WorkPass :=
  frcoreWorkProcess run.1 run.2.1 run.2.2

/-- The work is a packet of this port. -/
def DataRun.at (run : DataRun) (ipprt : Nat) : Bool :=
  run.2.2.unused = 0 ∧ run.2.2.ipprt = ipprt

/-- The packet goes to the host, or would. -/
def Fate.toHost (fate : Fate) : Bool := fate = .forwarded ∨ fate = .discarded

/-- The counters agree with each other, and with what became of the works. -/
structure Books (stat : DataStat → BitVec 64) (works : List DataRun) :
    Prop where
  kinds :
    stat .workData + stat .actUnfree + stat .workUnkown =
      BitVec.ofNat 64 works.length
  freed :
    stat .workFree = BitVec.ofNat 64 (works.countP (·.pass.fate = .freed))
  kept :
    stat .actUnfree = BitVec.ofNat 64 (works.countP (·.pass.fate = .kept))
  /-- What goes to the host is counted twice as it is received. -/
  received : ∀ ipprt, stat (.totalRcvd ipprt) =
    BitVec.ofNat 64 (works.countP (·.at ipprt)) +
      BitVec.ofNat 64 (works.countP fun run =>
        run.at ipprt && run.pass.fate.toHost)
  forwarded : ∀ ipprt, stat (.totalFwd ipprt) =
    BitVec.ofNat 64 (works.countP fun run =>
      run.at ipprt && run.pass.fate = .forwarded)
  /-- What PKO refuses is counted, what comes while the port is off is not. -/
  refused : ∀ ipprt, stat (.errPko ipprt) =
    BitVec.ofNat 64 (works.countP fun run =>
      run.at ipprt && run.pass.fate = .discarded && run.2.2.rxOn)
  acts : stat .workFree = stat .actDrop + stat .actFree
  ports : stat .workData = stat .p0RxPkts + stat .p1RxPkts
  recorded :
    stat .workFree = stat .dropPortOff + stat .dropRxError + stat .rxPkts +
      stat .workUnkown
  lengths :
    stat .veryShortPkts + stat .normalPkts + stat .veryLongPkts =
      stat .dropPortOff + stat .dropRxError + stat .rxPkts
  short : stat .veryShortPkts = stat .pktsBelow64
  long : stat .veryLongPkts = stat .pktsAbove1600
  normal :
    stat .normalPkts = stat .pktsBetween64And128 +
      stat .pktsBetween128And256 + stat .pktsBetween256And512 +
      stat .pktsBetween512And1024 + stat .pktsBetween1024And1500 +
      stat .pktsBetween1500And1600
  errors : stat .rxErrs = stat .dropRxError + stat .ipcDropSmacZero
  drops :
    stat .actDrop = stat .dropPortOff + stat .dropRxError +
      stat .ipcDropSmacZero + stat .dropIpOption + stat .dropIpV6 +
      stat .workUnkown
  options : stat .ipOption = stat .dropIpOption
  ipv6 : stat .ipV6 = stat .dropIpV6

section Ports

variable {stat : DataStat} (hstat : OfPort stat = true)

/-- A recorded packet is not counted by its port. -/
theorem recorded_ofPort (seen : IpcSeen) (work : DataWork) :
    ∀ e ∈ (frcoreIpcWorkProcess seen work).stats, OfPort e.1 = false := by
  have hinc : ∀ stats : List DataStat, (∀ stat ∈ stats, OfPort stat = false) →
      ∀ e ∈ stats.map DataStat.inc, OfPort e.1 = false :=
    fun stats hstats => List.forall_mem_map.mpr hstats
  have hkinds : ∀ e ∈ kindsOfPktLenStat work.len.toNat,
      OfPort e.1 = false := by
    obtain ⟨length, hlength, heq⟩ := kindsOfPktLenStat_ends work.len.toNat
    have hlengths : ∀ length ∈ lengthEnds, ∀ stat ∈ length,
        OfPort stat = false := by
      decide
    rw [heq]
    exact hinc length (hlengths length hlength)
  have hreceived : ∀ e ∈ receivedStats work, OfPort e.1 = false := by
    rw [receivedStats, List.forall_mem_append]
    exact ⟨hkinds, by simp [OfPort, DataStat.inc]⟩
  have hchecks : ∀ e ∈ checksOf seen work, OfPort e.1 = false := by
    intro e hmem
    have hall : ∀ stat ∈ checkStats, OfPort stat = false := by decide
    exact hall e.1 (checksOf_mem e hmem)
  have hprotocol : ∀ e ∈ (protocolStats work).2, OfPort e.1 = false := by
    unfold protocolStats
    dsimp only
    split_ifs
    · exact hinc [.ipOption, .dropIpOption] (by decide)
    · exact hinc [] (by decide)
    · exact hinc [.ipV6, .dropIpV6] (by decide)
    · exact hinc [] (by decide)
  unfold frcoreIpcWorkProcess
  dsimp only
  split_ifs
  · exact List.forall_mem_append.mpr ⟨hkinds, hinc [.dropPortOff] (by decide)⟩
  · rw [IpcPass.dropped, List.append_assoc, List.forall_mem_append]
    exact ⟨hkinds, hinc [.rxErrs, .dropRxError] (by decide)⟩
  · rw [IpcPass.dropped, List.append_assoc, List.forall_mem_append]
    exact ⟨hreceived, hinc [.rxErrs, .ipcDropSmacZero] (by decide)⟩
  · exact List.forall_mem_append.mpr
      ⟨List.forall_mem_append.mpr ⟨hreceived, hchecks⟩, hprotocol⟩

include hstat

theorem share_of_not_ofPort {entries : List DataCount}
    (h : ∀ e ∈ entries, OfPort e.1 = false) : share [stat] entries = 0 := by
  have hkinds : ∀ e ∈ entries, e.1 ∈ entries.map Prod.fst :=
    fun e hmem => List.mem_map_of_mem hmem
  apply Registers.share_eq_zero [stat] hkinds
  intro other hother hmem
  obtain ⟨e, he, rfl⟩ := List.mem_map.mp hother
  rw [← List.mem_singleton.mp hmem, h e he] at hstat
  cases hstat

/-- The share of a counter of a port: a packet is counted as it arrives, and on
its way to the host. -/
theorem share_pass (run : DataRun) :
    share [stat] run.pass.stats =
      if run.2.2.unused = 0 then
        share [stat] [(.totalRcvd run.2.2.ipprt, 1)] +
          if workMode run.1 run.2.2 = 0 then 0
          else share [stat] (frcoreForwardPacketToHost run.2.2).stats
      else 0 := by
  have hfinish : ∀ act, share [stat] (actStats act).1 = 0 := by
    intro act
    apply share_of_not_ofPort hstat
    cases act <;> simp [actStats, DataStat.inc, OfPort]
  have hothers : ∀ other : DataCount, OfPort other.1 = false →
      share [stat] [other] = 0 :=
    fun other hother => share_of_not_ofPort hstat (by simpa using hother)
  have hport : OfPort (if run.2.2.ipprt = 0 then DataStat.p0RxPkts.inc
      else DataStat.p1RxPkts.inc).1 = false := by
    split <;> rfl
  have harrived : share [stat] [(DataStat.coreWqe run.2.1).inc,
      (.totalRcvd run.2.2.ipprt, 1),
      (.totalBytes run.2.2.ipprt, run.2.2.len.setWidth 64),
      DataStat.workData.inc, if run.2.2.ipprt = 0 then DataStat.p0RxPkts.inc
        else DataStat.p1RxPkts.inc] =
      share [stat] [(.totalRcvd run.2.2.ipprt, 1)] := by
    have hrest : share [stat]
        [((.totalBytes run.2.2.ipprt, run.2.2.len.setWidth 64) : DataCount),
          DataStat.workData.inc,
          if run.2.2.ipprt = 0 then DataStat.p0RxPkts.inc
          else DataStat.p1RxPkts.inc] = 0 :=
      share_of_not_ofPort hstat (List.forall_mem_cons.mpr ⟨rfl,
        List.forall_mem_cons.mpr ⟨rfl, List.forall_mem_singleton.mpr hport⟩⟩)
    have hcore := hothers (DataStat.coreWqe run.2.1).inc rfl
    rw [Registers.share_cons, Registers.share_nil, add_zero] at hcore
    rw [Registers.share_cons, hcore, zero_add, Registers.share_cons, hrest,
      Registers.share_cons, Registers.share_nil]
  unfold DataRun.pass frcoreWorkProcess
  split
  · rename_i hkind
    rw [if_pos hkind]
    by_cases hmode : workMode run.1 run.2.2 = 0
    · dsimp only
      rw [if_pos hmode, if_pos hmode]
      simp only [WorkPass.finish, Registers.share_append, harrived, hfinish,
        share_of_not_ofPort hstat (recorded_ofPort run.1 run.2.2), add_zero]
    · dsimp only
      rw [if_neg hmode, if_neg hmode, Registers.share_append, harrived]
  · rw [if_neg (by omega)]
    simp only [WorkPass.finish, Registers.share_append, hfinish,
      Registers.share_nil, add_zero]
  · rw [if_neg (by assumption)]
    simp only [WorkPass.finish, Registers.share_append, hfinish,
      hothers _ (rfl : OfPort DataStat.workUnkown.inc.1 = false), add_zero]

end Ports

section Counts

theorem frcoreForwardPacketToHost_shares (work : DataWork) (ipprt : Nat) :
    share [.totalRcvd ipprt] (frcoreForwardPacketToHost work).stats =
        (if work.ipprt = ipprt then 1 else 0) ∧
      share [.totalFwd ipprt] (frcoreForwardPacketToHost work).stats =
        (if work.ipprt = ipprt ∧
          (frcoreForwardPacketToHost work).fate = .forwarded then 1 else 0) ∧
      share [.errPko ipprt] (frcoreForwardPacketToHost work).stats =
        (if work.ipprt = ipprt ∧ (frcoreForwardPacketToHost work).fate =
          .discarded ∧ work.rxOn = true then 1 else 0) := by
  unfold frcoreForwardPacketToHost
  dsimp only
  cases hon : work.rxOn with
  | false => simp
  | true =>
      cases hok : work.pkoOk with
      | false => simp
      | true => simp

variable {run : DataRun}

/-- The work is a packet of a port that is not recorded. -/
def DataRun.sent (run : DataRun) : Prop :=
  run.2.2.unused = 0 ∧ workMode run.1 run.2.2 ≠ 0

theorem pass_of_sent (h : run.sent) :
    run.pass.fate = (frcoreForwardPacketToHost run.2.2).fate := by
  unfold DataRun.pass frcoreWorkProcess
  split
  · dsimp only
    rw [if_neg h.2]
  · exact absurd h.1 (by omega)
  · exact absurd h.1 (by assumption)

theorem pass_of_not_sent (h : ¬ run.sent) : run.pass.fate.toHost = false := by
  have hfinish : ∀ stats act,
      (WorkPass.finish stats act).fate.toHost = false := by
    intro stats act
    unfold WorkPass.finish
    dsimp only
    split <;> rfl
  unfold DataRun.pass frcoreWorkProcess
  split
  · rename_i hkind
    have hmode : workMode run.1 run.2.2 = 0 := by
      by_contra hmode
      exact h ⟨hkind, hmode⟩
    dsimp only
    rw [if_pos hmode]
    exact hfinish _ _
  · exact hfinish _ _
  · exact hfinish _ _

/-- The share of a counter of a port, by what becomes of the packet. -/
theorem share_pass_of_sent {stat : DataStat} (hstat : OfPort stat = true)
    (h : run.sent) :
    share [stat] run.pass.stats =
      share [stat] [(.totalRcvd run.2.2.ipprt, 1)] +
        share [stat] (frcoreForwardPacketToHost run.2.2).stats := by
  rw [share_pass hstat, if_pos h.1, if_neg h.2]

theorem share_pass_of_not_sent {stat : DataStat} (hstat : OfPort stat = true)
    (h : ¬ run.sent) :
    share [stat] run.pass.stats = if run.2.2.unused = 0 then
      share [stat] [(.totalRcvd run.2.2.ipprt, 1)] else 0 := by
  rw [share_pass hstat]
  split
  · have hmode : workMode run.1 run.2.2 = 0 := by
      by_contra hmode
      exact h ⟨‹_›, hmode⟩
    rw [if_pos hmode, add_zero]
  · rfl

theorem toHost_cases {fate : Fate} (h : fate.toHost = false) :
    fate ≠ .forwarded ∧ fate ≠ .discarded := by
  cases fate <;> simp_all [Fate.toHost]

variable (run) (ipprt : Nat)

theorem share_totalRcvd :
    share [.totalRcvd ipprt] run.pass.stats =
      BitVec.ofNat 64 (if run.at ipprt then 1 else 0) +
        BitVec.ofNat 64
          (if run.at ipprt && run.pass.fate.toHost then 1 else 0) := by
  by_cases hsent : run.sent
  · have htoHost : run.pass.fate.toHost = true := by
      rw [pass_of_sent hsent, Fate.toHost, decide_eq_true_eq]
      exact (frcoreForwardPacketToHost_ends run.2.2).1
    rw [share_pass_of_sent rfl hsent, htoHost,
      (frcoreForwardPacketToHost_shares run.2.2 ipprt).1]
    by_cases hport : run.2.2.ipprt = ipprt <;>
      simp [DataRun.at, hsent.1, hport]
  · rw [share_pass_of_not_sent rfl hsent, pass_of_not_sent hsent]
    by_cases hkind : run.2.2.unused = 0 <;>
      by_cases hport : run.2.2.ipprt = ipprt <;>
        simp [DataRun.at, hkind, hport]

theorem share_totalFwd :
    share [.totalFwd ipprt] run.pass.stats =
      BitVec.ofNat 64
        (if run.at ipprt && run.pass.fate = .forwarded then 1 else 0) := by
  by_cases hsent : run.sent
  · rw [share_pass_of_sent rfl hsent, pass_of_sent hsent,
      (frcoreForwardPacketToHost_shares run.2.2 ipprt).2.1]
    by_cases hport : run.2.2.ipprt = ipprt <;>
      by_cases hfate : (frcoreForwardPacketToHost run.2.2).fate = .forwarded <;>
        simp [DataRun.at, hsent.1, hport, hfate]
  · have hfate := (toHost_cases (pass_of_not_sent hsent)).1
    rw [share_pass_of_not_sent rfl hsent]
    simp [hfate]

theorem share_errPko :
    share [.errPko ipprt] run.pass.stats =
      BitVec.ofNat 64 (if run.at ipprt && run.pass.fate = .discarded &&
        run.2.2.rxOn then 1 else 0) := by
  by_cases hsent : run.sent
  · rw [share_pass_of_sent rfl hsent, pass_of_sent hsent,
      (frcoreForwardPacketToHost_shares run.2.2 ipprt).2.2]
    by_cases hport : run.2.2.ipprt = ipprt <;>
      by_cases hfate : (frcoreForwardPacketToHost run.2.2).fate = .discarded <;>
        by_cases hon : run.2.2.rxOn = true <;>
          simp [DataRun.at, hsent.1, hport, hfate, hon]
  · have hfate := (toHost_cases (pass_of_not_sent hsent)).2
    rw [share_pass_of_not_sent rfl hsent]
    simp [hfate]

end Counts

variable {works : List DataRun} {incs : List DataCount}
  (h : incs.Perm (works.flatMap fun run => run.pass.stats))

include h

/-- Two groups of counters agree if they do at every end of a work. -/
theorem sum_eq_sum (group other : List DataStat) (hnodup : group.Nodup)
    (hother : other.Nodup)
    (hplain : ∀ stat ∈ group ++ other, Plain stat = true)
    (hends : ∀ ends ∈ workEnds, ends.1.countP (· ∈ group) =
      ends.1.countP (· ∈ other)) :
    sum group (incs.foldl Registers.add fun _ => 0) =
      sum other (incs.foldl Registers.add fun _ => 0) := by
  apply Registers.balance hnodup hother _ h
  intro run _
  obtain ⟨ends, hmem, _, hcounts⟩ :=
    frcoreWorkProcess_ends run.1 run.2.1 run.2.2
  have hgroup := hcounts group fun stat hstat =>
    hplain stat (List.mem_append_left _ hstat)
  have hthe := hcounts other fun stat hstat =>
    hplain stat (List.mem_append_right _ hstat)
  rw [DataRun.pass, hgroup, hthe, hends ends hmem]

/-- A group of counters that counts works of two kinds. -/
theorem sum_eq_countP_add {group : List DataStat} (hnodup : group.Nodup)
    (kind more : DataRun → Bool)
    (hshare : ∀ run : DataRun, share group run.pass.stats =
      BitVec.ofNat 64 (if kind run then 1 else 0) +
        BitVec.ofNat 64 (if more run then 1 else 0)) :
    sum group (incs.foldl Registers.add fun _ => 0) =
      BitVec.ofNat 64 (works.countP kind) +
        BitVec.ofNat 64 (works.countP more) := by
  rw [Registers.sum_passes hnodup _ works h]
  clear h
  induction works with
  | nil => rfl
  | cons run works ih =>
      rw [List.map_cons, List.sum_cons, ih, hshare, List.countP_cons,
        List.countP_cons, BitVec.ofNat_add, BitVec.ofNat_add,
        add_add_add_comm, add_comm (BitVec.ofNat 64 _),
        add_comm (BitVec.ofNat 64 (works.countP more))]

theorem sum_eq_countP_of_share {group : List DataStat} (hnodup : group.Nodup)
    (kind : DataRun → Bool)
    (hshare : ∀ run : DataRun, share group run.pass.stats =
      BitVec.ofNat 64 (if kind run then 1 else 0)) :
    sum group (incs.foldl Registers.add fun _ => 0) =
      BitVec.ofNat 64 (works.countP kind) := by
  have hnone : ∀ run : DataRun, share group run.pass.stats =
      BitVec.ofNat 64 (if kind run then 1 else 0) +
        BitVec.ofNat 64 (if (fun _ => false) run then 1 else 0) := by
    intro run
    rw [hshare, if_neg Bool.false_ne_true]
    exact (add_zero _).symm
  rw [sum_eq_countP_add h hnodup kind _ hnone, List.countP_false]
  exact add_zero _

/-- A group of counters tells how many works came to ends of a kind. -/
theorem sum_eq_countP (group : List DataStat) (kind : Fate → Bool)
    (hnodup : group.Nodup) (hplain : ∀ stat ∈ group, Plain stat = true)
    (hends : ∀ ends ∈ workEnds,
      ends.1.countP (· ∈ group) = if kind ends.2 then 1 else 0) :
    sum group (incs.foldl Registers.add fun _ => 0) =
      BitVec.ofNat 64 (works.countP (kind ·.pass.fate)) := by
  apply sum_eq_countP_of_share h hnodup fun run => kind run.pass.fate
  intro run
  obtain ⟨ends, hmem, hfate, hcounts⟩ :=
    frcoreWorkProcess_ends run.1 run.2.1 run.2.2
  rw [DataRun.pass, hcounts group hplain, hends ends hmem, hfate]

/-- The books balance, whatever the passes found in the shared words, and in
whatever order their additions got to the counters. -/
theorem frcoreWorkProcess_books :
    Books (incs.foldl Registers.add fun _ => 0) works := by
  constructor
  case kinds =>
    have hsum := sum_eq_countP h [.workData, .actUnfree, .workUnkown]
      (fun _ => true) (by decide) (by decide) (by decide)
    rw [List.countP_true] at hsum
    simpa [sum, add_assoc] using hsum
  case freed =>
    simpa [sum] using sum_eq_countP h [.workFree] (· = .freed) (by decide)
      (by decide) (by decide)
  case kept =>
    simpa [sum] using sum_eq_countP h [.actUnfree] (· = .kept) (by decide)
      (by decide) (by decide)
  case received =>
    intro ipprt
    simpa [sum] using sum_eq_countP_add h (List.nodup_singleton _) _ _
      (share_totalRcvd · ipprt)
  case forwarded =>
    intro ipprt
    simpa [sum] using sum_eq_countP_of_share h (List.nodup_singleton _) _
      (share_totalFwd · ipprt)
  case refused =>
    intro ipprt
    simpa [sum] using sum_eq_countP_of_share h (List.nodup_singleton _) _
      (share_errPko · ipprt)
  case acts =>
    simpa [sum, add_assoc] using sum_eq_sum h [.workFree]
      [.actDrop, .actFree]
      (by decide) (by decide) (by decide) (by decide)
  case ports =>
    simpa [sum, add_assoc] using sum_eq_sum h [.workData]
      [.p0RxPkts, .p1RxPkts]
      (by decide) (by decide) (by decide) (by decide)
  case recorded =>
    simpa [sum, add_assoc] using sum_eq_sum h [.workFree]
      [.dropPortOff, .dropRxError, .rxPkts, .workUnkown]
      (by decide) (by decide) (by decide) (by decide)
  case lengths =>
    simpa [sum, add_assoc] using sum_eq_sum h [.veryShortPkts, .normalPkts, .veryLongPkts]
      [.dropPortOff, .dropRxError, .rxPkts]
      (by decide) (by decide) (by decide) (by decide)
  case short =>
    simpa [sum, add_assoc] using sum_eq_sum h [.veryShortPkts]
      [.pktsBelow64]
      (by decide) (by decide) (by decide) (by decide)
  case long =>
    simpa [sum, add_assoc] using sum_eq_sum h [.veryLongPkts]
      [.pktsAbove1600]
      (by decide) (by decide) (by decide) (by decide)
  case normal =>
    simpa [sum, add_assoc] using sum_eq_sum h [.normalPkts]
      [.pktsBetween64And128, .pktsBetween128And256, .pktsBetween256And512,
        .pktsBetween512And1024, .pktsBetween1024And1500,
        .pktsBetween1500And1600]
      (by decide) (by decide) (by decide) (by decide)
  case errors =>
    simpa [sum, add_assoc] using sum_eq_sum h [.rxErrs]
      [.dropRxError, .ipcDropSmacZero]
      (by decide) (by decide) (by decide) (by decide)
  case drops =>
    simpa [sum, add_assoc] using sum_eq_sum h [.actDrop]
      [.dropPortOff, .dropRxError, .ipcDropSmacZero, .dropIpOption,
        .dropIpV6, .workUnkown]
      (by decide) (by decide) (by decide) (by decide)
  case options =>
    simpa [sum, add_assoc] using sum_eq_sum h [.ipOption]
      [.dropIpOption]
      (by decide) (by decide) (by decide) (by decide)
  case ipv6 =>
    simpa [sum, add_assoc] using sum_eq_sum h [.ipV6]
      [.dropIpV6]
      (by decide) (by decide) (by decide) (by decide)

end Books

section Example

/-- Port 0 is recorded, port 1 goes to the host. -/
def onePortRecorded : IpcSeen where
  workModeOct0 := 0
  workModeOct1 := 1
  misc := ⟨⟨0, 0⟩, 0, 0⟩
  expected := ⟨expHead 0 0 0, expHead 0 0 0⟩
  instr := .zero
  smac := 0
  pktid := 0

/-- A packet of sixty bytes. -/
def shortPkt (rxOn : Bool) (ipprt : Nat) (pkoOk : Bool) : DataWork where
  rxOn := rxOn
  rcvError := false
  ether := List.replicate 60 0
  unused := 0
  ipprt := ipprt
  len := 60
  ip := List.replicate 46 0
  pkoOk := pkoOk

def fourPkts : List DataRun :=
  [(onePortRecorded, 0, shortPkt false 0 true),
    (onePortRecorded, 1, shortPkt true 0 true),
    (onePortRecorded, 0, shortPkt true 1 true),
    (onePortRecorded, 1, shortPkt true 1 false)]

/-- The additions of two cores get to the counters in the opposite order. -/
theorem frcoreWorkProcess_books_four :
    Books ((fourPkts.flatMap fun run => run.pass.stats).reverse.foldl
      Registers.add fun _ => 0) fourPkts ∧
    (fourPkts.map fun run => run.pass.fate) =
      [.freed, .freed, .forwarded, .discarded] :=
  ⟨frcoreWorkProcess_books (List.reverse_perm _), by decide⟩

end Example

end DataPath

end Barley
