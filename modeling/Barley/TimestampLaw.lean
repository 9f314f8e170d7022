/-
When the check of times and addresses counts what it should: all packets of a
pair of ports are compared with the first one, by times whose seconds wrap and
whose months have 30 days.
-/
import Barley.MixedRadix
import Barley.TimestampCheck

namespace Barley

namespace RealPkt

variable (pkt : RealPkt)

/-- The seconds of a time as the code adds them up, but without overflow. -/
def seconds : Nat :=
  (pkt.year.toNat * 365 + pkt.month.toNat * 30 + pkt.day.toNat) * 86400 +
    pkt.hour.toNat * 3600 + pkt.minute.toNat * 60 + pkt.second.toNat

/-- The nanoseconds within a second. -/
def fine : Nat :=
  pkt.ms.toNat * 1000000 + pkt.us.toNat * 1000 + pkt.ns.toNat

theorem day_le_month (year month : Nat) : daysInMonth year month ≤ 31 := by
  rw [daysInMonth]
  split_ifs <;> decide

theorem day_le : pkt.day.toNat ≤ 31 :=
  Nat.le_trans pkt.real.day_le (day_le_month _ _)

theorem seconds_ge : 14 * 2 ^ 32 + 1999056256 ≤ pkt.seconds := by
  have hyear := pkt.real.year_ge
  have hmonth := pkt.real.month_ge
  have hday := pkt.real.day_ge
  rw [seconds]
  omega

theorem seconds_lt : pkt.seconds < 15 * 2 ^ 32 + 258159360 := by
  have hyear := pkt.real.year_le
  have hmonth := pkt.real.month_le
  have hday := pkt.day_le
  have hhour := pkt.real.hour_le
  have hminute := pkt.real.minute_le
  have hsecond := pkt.real.second_le
  rw [seconds]
  omega

theorem fine_lt : pkt.fine < 1000000000 := by
  have hms := pkt.real.ms_le
  have hus := pkt.real.us_le
  have hns := pkt.real.ns_le
  rw [fine]
  omega

theorem stamptime_toNat :
    pkt.stamptime.toNat = pkt.seconds % 2 ^ 32 * 1000000000 + pkt.fine := by
  have hfine := pkt.fine_lt
  have hlow : (pkt.ns + pkt.us * 1000#32 + pkt.ms * 1000000#32).toNat =
      pkt.fine := by
    -- Not by simp: it would prove the equation by computing with the literals.
    rw [fine] at hfine ⊢
    rw [BitVec.toNat_add, BitVec.toNat_add, BitVec.toNat_mul, BitVec.toNat_mul,
      BitVec.toNat_ofNat, BitVec.toNat_ofNat]
    omega
  have hhigh : (pkt.second + pkt.minute * 60#32 + pkt.hour * 3600#32 +
      (pkt.year * 365#32 + pkt.month * 30#32 + pkt.day) * 24#32 * 3600#32).toNat =
      pkt.seconds % 2 ^ 32 := by
    rw [seconds]
    simp only [BitVec.toNat_add, BitVec.toNat_mul, BitVec.toNat_ofNat]
    omega
  have hseconds : pkt.seconds % 2 ^ 32 < 2 ^ 32 := Nat.mod_lt _ (by decide)
  rw [TimestampPkt.stamptime, BitVec.toNat_add, BitVec.toNat_mul,
    BitVec.toNat_setWidth, BitVec.toNat_setWidth, hlow, hhigh,
    BitVec.toNat_ofNat]
  omega

/-- The wrapped times are those whose seconds exceed another multiple of
`2 ^ 32`. -/
theorem wrapped_iff : pkt.Wrapped ↔ 15 * 2 ^ 32 ≤ pkt.seconds := by
  have hmonth := pkt.real.month_le
  have hmonth' := pkt.real.month_ge
  have hday := pkt.day_le
  have hday' := pkt.real.day_ge
  have hhour := pkt.real.hour_le
  have hminute := pkt.real.minute_le
  have hsecond := pkt.real.second_le
  simp only [Wrapped, time, List.cons_lt_cons_iff, List.not_lt_nil, and_false,
    or_false]
  rw [seconds]
  omega

theorem skewed_within :
    MixedRadix.Within pkt.skewed
      [2, 2051, 365, 24, 60, 60, 1000, 1000, 1000] := by
  have hyear := pkt.real.year_le
  have hmonth := pkt.real.month_le
  have hday := pkt.day_le
  have hhour := pkt.real.hour_le
  have hminute := pkt.real.minute_le
  have hsecond := pkt.real.second_le
  have hms := pkt.real.ms_le
  have hus := pkt.real.us_le
  have hns := pkt.real.ns_le
  have hera : (if pkt.Wrapped then 0 else 1) < 2 := by
    split_ifs <;> decide
  simp only [MixedRadix.Within, skewed, List.forall₂_cons,
    List.forall₂_nil_left_iff, and_true]
  exact ⟨hera, by omega, by omega, by omega, by omega, by omega, by omega,
    by omega, by omega⟩

theorem skewed_value :
    MixedRadix.value [2, 2051, 365, 24, 60, 60, 1000, 1000, 1000] pkt.skewed =
      (if pkt.Wrapped then 0 else 1) *
          [2051, 365, 24, 60, 60, 1000, 1000, 1000].prod +
        (pkt.seconds - 31 * 86400) * 1000000000 + pkt.fine := by
  have hmonth := pkt.real.month_ge
  have hday := pkt.real.day_ge
  rw [skewed, MixedRadix.value, Nat.add_assoc]
  refine congrArg _ ?_
  simp only [MixedRadix.value, List.prod_cons, List.prod_nil]
  rw [seconds, fine]
  omega

/-- The code compares two times by the order of the skewed ones. -/
theorem stamptime_lt_iff (pkt other : RealPkt) :
    pkt.stamptime < other.stamptime ↔ pkt.skewed < other.skewed := by
  rw [MixedRadix.lt_iff_value_lt pkt.skewed_within other.skewed_within,
    skewed_value, skewed_value, BitVec.lt_def, stamptime_toNat, stamptime_toNat]
  have hge := pkt.seconds_ge
  have hge' := other.seconds_ge
  have hlt := pkt.seconds_lt
  have hlt' := other.seconds_lt
  have hfine := pkt.fine_lt
  have hfine' := other.fine_lt
  have hprod : [2051, 365, 24, 60, 60, 1000, 1000, 1000].prod =
      64680336000 * 1000000000 := rfl
  rw [hprod]
  by_cases hwrapped : pkt.Wrapped <;> by_cases hwrapped' : other.Wrapped
  all_goals
    simp only [hwrapped, hwrapped', if_true, if_false]
    rw [wrapped_iff] at hwrapped hwrapped'
    omega

/-- Without a day 31 and between times that are both wrapped or both not, the
code's order is that of the calendar. -/
theorem skewed_lt_iff_time_lt (pkt other : RealPkt)
    (hwrapped : pkt.Wrapped ↔ other.Wrapped) (hday : pkt.day.toNat ≤ 30)
    (hday' : other.day.toNat ≤ 30) :
    pkt.skewed < other.skewed ↔ pkt.time < other.time := by
  have hmonth := pkt.real.month_ge
  have hmonth' := other.real.month_ge
  have hfirst := pkt.real.day_ge
  have hfirst' := other.real.day_ge
  have hera : (if pkt.Wrapped then 0 else 1) = if other.Wrapped then 0 else 1 :=
    if_congr hwrapped rfl rfl
  simp only [skewed, time, List.cons_lt_cons_iff, hera, Nat.lt_irrefl, false_or,
    true_and, List.not_lt_nil, and_false, or_false]
  omega

end RealPkt

section Counters

variable {stat next : Nat → BitVec 64} {cnt : Nat} {err code : Prop}

theorem counts_iff (h : Counts stat next cnt code) :
    Counts stat next cnt err ↔ (code ↔ err) := by
  have hne : stat cnt + 1#64 ≠ stat cnt := by
    intro heq
    simp at heq
  constructor
  · intro herr
    constructor
    · intro hcode
      by_contra hnot
      exact hne ((h.raised hcode).symm.trans (herr.kept hnot))
    · intro hyes
      by_contra hnot
      exact hne ((herr.raised hyes).symm.trans (h.kept hnot))
  · intro hiff
    exact ⟨fun hyes => h.raised (hiff.mpr hyes),
      fun hno => h.kept fun hcode => hno (hiff.mp hcode)⟩

/-- A counter shows whether it has been raised. -/
theorem Counts.ne_iff (h : Counts stat next cnt code) :
    next cnt ≠ stat cnt ↔ code := by
  constructor
  · intro hne
    by_contra hnot
    exact hne (h.kept hnot)
  · intro hcode heq
    exact (counts_iff ⟨fun hfalse => hfalse.elim, fun _ => heq⟩).mp h |>.mpr hcode

theorem counts_statAdd (hstat : next cnt = stat cnt) :
    Counts stat (statAdd next cnt 1#64) cnt True :=
  ⟨fun _ => by rw [statAdd, Function.update_self, hstat],
    fun h => absurd trivial h⟩

theorem counts_of_eq (hstat : next cnt = stat cnt) :
    Counts stat next cnt False :=
  ⟨fun h => h.elim, fun _ => hstat⟩

theorem statAdd_of_ne (stat : Nat → BitVec 64) {cnt other : Nat}
    (val : BitVec 64) (h : other ≠ cnt) :
    statAdd stat cnt val other = stat other :=
  Function.update_of_ne h _ _

theorem index_ne {cnt cnt' : PortStat} (ports : Nat × Nat) (h : cnt ≠ cnt') :
    cnt.index ports ≠ cnt'.index ports := by
  have hidx : cnt.ctorIdx ≠ cnt'.ctorIdx := by
    cases cnt <;> cases cnt' <;> first | exact absurd rfl h | decide
  rw [PortStat.index, PortStat.index]
  omega

/-- Counting the packet itself leaves the error counters of its ports. -/
theorem statRx_index (pkt : TimestampPkt) (stat : Nat → BitVec 64)
    {cnt : PortStat} (hcnt : cnt ≠ .rxxPkts) :
    pkt.statRx stat (cnt.index pkt.ports) = stat (cnt.index pkt.ports) := by
  have hge : 7 + pkt.ipport * 19 ≤ cnt.index pkt.ports := by
    rw [PortStat.index]
    split_ifs <;> exact Nat.add_le_add_right (by omega) _
  rw [TimestampPkt.statRx, statAdd_of_ne _ _ (index_ne pkt.ports hcnt),
    statAdd_of_ne _ _ (by omega),
    statAdd_of_ne _ _ (by split_ifs <;> omega),
    statAdd_of_ne _ _ (by split_ifs <;> omega),
    statAdd_of_ne _ _ (by omega), statAdd_of_ne _ _ (by omega)]

/-- An error in the address is counted in place of one in the time. -/
theorem counts_errors (pkt : TimestampPkt) (stat : Nat → BitVec 64)
    (sipError late : Prop) [Decidable sipError] [Decidable late] :
    let rx := pkt.statRx stat
    let next := if sipError then
        statAdd rx (PortStat.ipErrPkts.index pkt.ports) 1#64
      else if late then
        statAdd rx (PortStat.timestampErrPkts.index pkt.ports) 1#64
      else rx
    Counts stat next (PortStat.ipErrPkts.index pkt.ports) sipError ∧
      Counts stat next (PortStat.timestampErrPkts.index pkt.ports)
        (¬ sipError ∧ late) := by
  intro rx next
  have hip : rx (PortStat.ipErrPkts.index pkt.ports) =
      stat (PortStat.ipErrPkts.index pkt.ports) := statRx_index _ _ (by decide)
  have htime : rx (PortStat.timestampErrPkts.index pkt.ports) =
      stat (PortStat.timestampErrPkts.index pkt.ports) :=
    statRx_index _ _ (by decide)
  have hne : PortStat.ipErrPkts.index pkt.ports ≠
      PortStat.timestampErrPkts.index pkt.ports := index_ne _ (by decide)
  by_cases hsip : sipError
  · have hnext : next = statAdd rx (PortStat.ipErrPkts.index pkt.ports) 1#64 :=
      if_pos hsip
    rw [hnext]
    constructor
    · exact (counts_iff (counts_statAdd hip)).mpr (iff_of_true trivial hsip)
    · have hkept := (statAdd_of_ne rx 1#64 hne.symm).trans htime
      exact (counts_iff (counts_of_eq hkept)).mpr
        (iff_of_false not_false fun hboth => hboth.1 hsip)
  by_cases hlate : late
  · have hnext : next =
        statAdd rx (PortStat.timestampErrPkts.index pkt.ports) 1#64 :=
      (if_neg hsip).trans (if_pos hlate)
    rw [hnext]
    constructor
    · have hkept := (statAdd_of_ne rx 1#64 hne).trans hip
      exact (counts_iff (counts_of_eq hkept)).mpr (iff_of_false not_false hsip)
    · exact (counts_iff (counts_statAdd htime)).mpr
        (iff_of_true trivial ⟨hsip, hlate⟩)
  · have hnext : next = rx := (if_neg hsip).trans (if_neg hlate)
    rw [hnext]
    constructor
    · exact (counts_iff (counts_of_eq hip)).mpr (iff_of_false not_false hsip)
    · exact (counts_iff (counts_of_eq htime)).mpr
        (iff_of_false not_false fun hboth => hlate hboth.2)

end Counters

section Rounds

variable (pkt : RealPkt) {check : TimestampCheck}

/-- A time of the calendar passes the checks of the fields. -/
theorem RealPkt.invalid_eq_nil : pkt.invalid = [] := by
  obtain ⟨hyear, hyear', hmonth, hmonth', hday, -, hhour, hminute, hsecond, -⟩ :=
    pkt.real
  have hday' := pkt.day_le
  rw [TimestampPkt.invalid, if_neg, if_neg, if_neg, if_neg, if_neg, if_neg]
  · rfl
  all_goals
    simp only [BitVec.lt_def, BitVec.toNat_ofNat]
    omega

/-- The first packet of a pair of ports is written into the entry. -/
theorem check_first (hentry : (check.checks pkt.ports).update = false) :
    pkt.frcoreTimestampCheck check =
      ⟨pkt.statRx check.stat, Function.update check.checks pkt.ports
        ⟨true, pkt.sip, pkt.stamptime⟩⟩ := by
  rw [TimestampPkt.frcoreTimestampCheck, pkt.invalid_eq_nil,
    if_neg (fun hnil => hnil rfl), hentry, if_neg Bool.false_ne_true]

/-- Every other one is compared with the entry. -/
theorem check_later {sip : BitVec 32} {stamp : BitVec 64}
    (hentry : check.checks pkt.ports = ⟨true, sip, stamp⟩) :
    pkt.frcoreTimestampCheck check =
      ⟨if pkt.sip ≤ sip then
          statAdd (pkt.statRx check.stat) (PortStat.ipErrPkts.index pkt.ports) 1#64
        else if pkt.stamptime ≤ stamp then
          statAdd (pkt.statRx check.stat)
            (PortStat.timestampErrPkts.index pkt.ports) 1#64
        else pkt.statRx check.stat, check.checks⟩ := by
  rw [TimestampPkt.frcoreTimestampCheck, pkt.invalid_eq_nil,
    if_neg (fun hnil => hnil rfl), hentry, if_pos rfl]
  split_ifs <;> rfl

end Rounds

namespace TimestampRun

variable (run : TimestampRun) (pkt : RealPkt)

/-- The address is not greater than that of the first packet that passed. -/
def FirstSip : Prop :=
  ∃ first, (run.passed pkt.ports).head? = some first ∧ pkt.sip ≤ first.sip

/-- The skewed time is not greater than that of the first packet that
passed. -/
def FirstTime : Prop :=
  ∃ first, (run.passed pkt.ports).head? = some first ∧
    ¬ first.skewed < pkt.skewed

/-- The entry holds the first of the packets that passed, which has the least
address. -/
structure EntryKeeps (entry : TimestampEntry) (passed : List RealPkt) :
    Prop where
  empty : passed = [] → entry.update = false
  first : ∀ first, passed.head? = some first →
    entry = ⟨true, first.sip, first.stamptime⟩
  least : ∀ first last, passed.head? = some first →
    passed.getLast? = some last → first.sip ≤ last.sip

def Keeps : Prop :=
  ∀ ports, EntryKeeps (run.check.checks ports) (run.passed ports)

variable {run} {pkt}

theorem exists_some_iff {α : Type} {o : Option α} {a : α} {p : α → Prop}
    (h : o = some a) : (∃ b, o = some b ∧ p b) ↔ p a := by
  subst h
  exact ⟨fun ⟨_, hb, hp⟩ => Option.some.inj hb ▸ hp, fun hp => ⟨a, rfl, hp⟩⟩

theorem not_exists_of_none {α : Type} {o : Option α} {p : α → Prop}
    (h : o = none) : ¬ ∃ b, o = some b ∧ p b := by
  rintro ⟨b, hb, -⟩
  rw [h] at hb
  cases hb

/-- What the code counts, and when it writes the entry. -/
theorem Keeps.counts (h : run.Keeps) :
    let next := pkt.frcoreTimestampCheck run.check
    Counts run.check.stat next.stat (PortStat.ipErrPkts.index pkt.ports)
        (run.FirstSip pkt) ∧
      Counts run.check.stat next.stat (PortStat.timestampErrPkts.index pkt.ports)
        (¬ run.FirstSip pkt ∧ run.FirstTime pkt) ∧
      next.checks = if run.passed pkt.ports = [] then
          Function.update run.check.checks pkt.ports
            ⟨true, pkt.sip, pkt.stamptime⟩
        else run.check.checks := by
  intro next
  have hnext : next = pkt.frcoreTimestampCheck run.check := rfl
  cases hpassed : run.passed pkt.ports with
  | nil =>
      have hhead : (run.passed pkt.ports).head? = none := by
        rw [hpassed, List.head?_nil]
      have hsip : ¬ run.FirstSip pkt := not_exists_of_none hhead
      have hlate : ¬ run.FirstTime pkt := not_exists_of_none hhead
      rw [hnext, check_first pkt ((h pkt.ports).empty hpassed), if_pos rfl]
      have hkept : ∀ cnt : PortStat, cnt ≠ .rxxPkts →
          Counts run.check.stat (pkt.statRx run.check.stat)
            (cnt.index pkt.ports) False := fun cnt hcnt =>
        counts_of_eq (statRx_index _ _ hcnt)
      exact ⟨(counts_iff (hkept _ (by decide))).mpr (iff_of_false not_false hsip),
        (counts_iff (hkept _ (by decide))).mpr
          (iff_of_false not_false fun hboth => hlate hboth.2), rfl⟩
  | cons first rest =>
      have hhead : (run.passed pkt.ports).head? = some first := by
        rw [hpassed, List.head?_cons]
      have hsip : run.FirstSip pkt ↔ pkt.sip ≤ first.sip := exists_some_iff hhead
      have hlate : run.FirstTime pkt ↔ pkt.stamptime ≤ first.stamptime := by
        rw [← BitVec.not_lt, RealPkt.stamptime_lt_iff]
        exact exists_some_iff hhead
      rw [hnext, check_later pkt ((h pkt.ports).first _ hhead), hsip, hlate,
        if_neg (List.cons_ne_nil first rest)]
      obtain ⟨hip, htime⟩ := counts_errors pkt.toTimestampPkt run.check.stat
        (pkt.sip ≤ first.sip) (pkt.stamptime ≤ first.stamptime)
      exact ⟨hip, htime, rfl⟩

/-- A packet does not pass if the code finds an error in it. -/
theorem Keeps.flagged_iff (h : run.Keeps) :
    pkt.Flagged run.check (pkt.frcoreTimestampCheck run.check) ↔
      run.FirstSip pkt ∨ run.FirstTime pkt := by
  obtain ⟨hip, htime, -⟩ := h.counts
  rw [RealPkt.Flagged, hip.ne_iff, htime.ne_iff]
  by_cases hsip : run.FirstSip pkt
  · exact iff_of_true (Or.inl hsip) (Or.inl hsip)
  · rw [or_iff_right hsip, and_iff_right hsip]
    exact (or_iff_right fun hboth => hsip hboth).symm

theorem allows_iff {first last : RealPkt}
    (hfirst : (run.passed pkt.ports).head? = some first)
    (hlast : (run.passed pkt.ports).getLast? = some last) :
    run.Allows pkt ↔
      ¬ (first.sip < pkt.sip ∧ pkt.sip ≤ last.sip) ∧
        (last.sip < pkt.sip →
          (first.skewed < pkt.skewed ↔ last.time < pkt.time)) := by
  constructor
  · exact fun h => h first last hfirst hlast
  · intro h first' last' hfirst' hlast'
    rw [hfirst] at hfirst'
    rw [hlast] at hlast'
    cases hfirst'
    cases hlast'
    exact h

/-- Without a packet that passed there is nothing to compare with. -/
theorem Keeps.does_iff_of_nil (h : run.Keeps) {next : TimestampRun}
    (hnext : next.check = pkt.frcoreTimestampCheck run.check)
    (hpassed : run.passed pkt.ports = []) :
    run.Does pkt next ↔ run.Allows pkt := by
  obtain ⟨hip, htime, -⟩ := h.counts
  have hfirst : (run.passed pkt.ports).head? = none := by
    rw [hpassed, List.head?_nil]
  have hlast : (run.passed pkt.ports).getLast? = none := by
    rw [hpassed, List.getLast?_nil]
  have hcode : ¬ run.FirstSip pkt := not_exists_of_none hfirst
  have hcode' : ¬ run.FirstTime pkt := not_exists_of_none hfirst
  have hspec : ¬ run.SipError pkt := not_exists_of_none hlast
  have hspec' : ¬ run.TimeError pkt := not_exists_of_none hlast
  rw [Does, hnext, counts_iff hip, counts_iff htime]
  refine iff_of_true ⟨iff_of_false hcode hspec,
    iff_of_false (fun h => hcode' h.2) fun h => hspec' h.2⟩ ?_
  intro first _ hsome
  rw [hfirst] at hsome
  cases hsome

/-- A packet is counted as it should be exactly when the first packet stands
for the last one. -/
theorem Keeps.does_iff (h : run.Keeps) {next : TimestampRun}
    (hnext : next.check = pkt.frcoreTimestampCheck run.check) :
    run.Does pkt next ↔ run.Allows pkt := by
  by_cases hpassed : run.passed pkt.ports = []
  · exact h.does_iff_of_nil hnext hpassed
  obtain ⟨first, hfirst⟩ : ∃ first, (run.passed pkt.ports).head? = some first :=
    Option.ne_none_iff_exists'.mp (mt List.head?_eq_none_iff.mp hpassed)
  obtain ⟨last, hlast⟩ : ∃ last, (run.passed pkt.ports).getLast? = some last :=
    Option.ne_none_iff_exists'.mp (mt List.getLast?_eq_none_iff.mp hpassed)
  obtain ⟨hip, htime, -⟩ := h.counts
  have hleast := (h pkt.ports).least _ _ hfirst hlast
  have hcode : run.FirstSip pkt ↔ pkt.sip ≤ first.sip := exists_some_iff hfirst
  have hcode' : run.FirstTime pkt ↔ ¬ first.skewed < pkt.skewed :=
    exists_some_iff hfirst
  have hspec : run.SipError pkt ↔ pkt.sip ≤ last.sip := exists_some_iff hlast
  have hspec' : run.TimeError pkt ↔ ¬ last.time < pkt.time :=
    exists_some_iff hlast
  rw [Does, hnext, counts_iff hip, counts_iff htime, hcode, hcode', hspec, hspec',
    allows_iff hfirst hlast, ← BitVec.not_le, ← BitVec.not_le]
  by_cases hsip : pkt.sip ≤ first.sip
  · have hsip' : pkt.sip ≤ last.sip := BitVec.le_trans hsip hleast
    simp [hsip, hsip']
  · by_cases hsip' : pkt.sip ≤ last.sip
    · simp [hsip, hsip']
    · simp only [hsip, hsip', not_false_eq_true, true_and, and_false, iff_self,
        forall_true_left, not_iff_not]

theorem entryKeeps_singleton (pkt : RealPkt) :
    EntryKeeps ⟨true, pkt.sip, pkt.stamptime⟩ [pkt] where
  empty h := absurd h (List.cons_ne_nil pkt [])
  first first hfirst := by
    cases hfirst
    rfl
  least first last hfirst hlast := by
    cases hfirst
    cases hlast
    exact BitVec.le_refl _

/-- A packet with a greater address goes behind the others. -/
theorem EntryKeeps.append {entry : TimestampEntry} {passed : List RealPkt}
    {first pkt : RealPkt} (h : EntryKeeps entry passed)
    (hfirst : passed.head? = some first) (hsip : first.sip ≤ pkt.sip) :
    EntryKeeps entry (passed ++ [pkt]) := by
  have hhead : (passed ++ [pkt]).head? = some first := by
    rw [List.head?_append, hfirst, Option.some_or]
  constructor
  · intro hnil
    exact absurd hnil
      (List.append_ne_nil_of_right_ne_nil _ (List.cons_ne_nil _ _))
  · intro first' hfirst'
    rw [hhead, ← hfirst] at hfirst'
    exact h.first first' hfirst'
  · intro first' last hfirst' hlast
    rw [hhead, Option.some.injEq] at hfirst'
    rw [List.getLast?_concat, Option.some.injEq] at hlast
    subst hfirst' hlast
    exact hsip

/-- The entries keep the first packets. -/
theorem Keeps.step (h : run.Keeps) {next : TimestampRun}
    (hnext : run.step pkt = some next) : next.Keeps := by
  obtain ⟨-, -, hchecks⟩ := @Keeps.counts run pkt h
  have hflagged := @Keeps.flagged_iff run pkt h
  rw [TimestampRun.step, Option.some.injEq] at hnext
  subst hnext
  intro ports
  simp only [hchecks]
  cases hfirst : (run.passed pkt.ports).head? with
  | none =>
      have hnil : run.passed pkt.ports = [] := List.head?_eq_none_iff.mp hfirst
      have hclean : ¬ pkt.Flagged run.check
          (pkt.frcoreTimestampCheck run.check) := by
        rw [hflagged]
        exact not_or.mpr ⟨not_exists_of_none hfirst, not_exists_of_none hfirst⟩
      rw [if_pos hnil, if_neg hclean, hnil, List.nil_append]
      by_cases hports : ports = pkt.ports
      · rw [hports, Function.update_self, Function.update_self]
        exact entryKeeps_singleton pkt
      · rw [Function.update_of_ne hports, Function.update_of_ne hports]
        exact h ports
  | some first =>
      have hne : run.passed pkt.ports ≠ [] := by
        intro hnil
        rw [hnil, List.head?_nil] at hfirst
        cases hfirst
      rw [if_neg hne]
      by_cases hflag : pkt.Flagged run.check (pkt.frcoreTimestampCheck run.check)
      · rw [if_pos hflag]
        exact h ports
      rw [if_neg hflag]
      by_cases hports : ports = pkt.ports
      · have hgreater : ¬ pkt.sip ≤ first.sip := fun hle =>
          hflag (hflagged.mpr (Or.inl ⟨first, hfirst, hle⟩))
        rw [hports, Function.update_self]
        exact (h pkt.ports).append hfirst
          (BitVec.le_of_lt (BitVec.not_le.mp hgreater))
      · rw [Function.update_of_ne hports]
        exact h ports

theorem keeps_init : init.Keeps := fun _ =>
  ⟨fun _ => rfl, fun _ hfirst => (by cases hfirst),
    fun _ _ hfirst => (by cases hfirst)⟩

end TimestampRun

/-- In every run the packets are counted as they should be exactly as long as
each one compares with the first packet that passed as with the last one. -/
theorem timestampRun_counted_iff (pkts : List RealPkt) :
    GuardedRuns.Stepwise TimestampRun.step TimestampRun.Does .init pkts ↔
      GuardedRuns.Each TimestampRun.step TimestampRun.Allows .init pkts := by
  refine GuardedRuns.stepwise_iff_each TimestampRun.Keeps (fun _ => True) ?_ ?_
    TimestampRun.keeps_init fun _ _ => trivial
  · intro run pkt _ hkeeps
    constructor
    · rintro ⟨next, hnext, hdoes⟩
      cases hnext
      exact (hkeeps.does_iff rfl).mp hdoes
    · intro hallows
      exact ⟨_, rfl, (hkeeps.does_iff rfl).mpr hallows⟩
  · intro run pkt next _ hkeeps _ hnext
    exact hkeeps.step hnext

/-- A packet at midday of 2020-01-01, with the given last byte of its address
and nanosecond. -/
def middayPkt (sip ns : Fin 4) : RealPkt where
  ipprt := 0
  len := 64#64
  version := .v4
  ethPtr k :=
    if k = 3 then 7#8 else if k = 4 then 0xe4#8 else if k = 5 then 0x10#8
    else if k = 6 then 0xb0#8 else if k = 11 then BitVec.ofNat 8 ns else 0#8
  ipPtr k := if k = 12 then 10#8 else if k = 15 then BitVec.ofNat 8 sip else 0#8
  real := by
    revert sip ns
    decide

/-- An address that is less than that of the packet before it goes uncounted. -/
theorem staleAddress_not_counted :
    ¬ GuardedRuns.Stepwise TimestampRun.step TimestampRun.Does .init
      [middayPkt 1 1, middayPkt 3 2, middayPkt 2 3] := by
  rintro ⟨_, hfirst, -, _, hsecond, -, _, hthird, hdoes, -⟩
  cases hfirst
  cases hsecond
  cases hthird
  have herr := hdoes.1.raised ⟨middayPkt 3 2, rfl, by decide⟩
  exact absurd herr (by decide)

end Barley
