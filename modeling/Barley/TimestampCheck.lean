/-
The check of the times and the source addresses that packets carry.  For each
pair of ports one packet is kept that later ones are compared with; each packet
is counted, and so is each error.
-/
import Mathlib.Logic.Function.Basic
import Mathlib.Tactic.MkIffOfInductiveProp
import Barley.GuardedRuns

namespace Barley

inductive IpVersion where
  | v4
  | v6
deriving DecidableEq, Repr

/-- A received packet: `work->ipprt`, `work->len` and the memory from its
Ethernet and its IP header on. -/
structure TimestampPkt where
  ipprt : Nat
  len : BitVec 64
  version : IpVersion
  ethPtr : Nat → BitVec 8
  ipPtr : Nat → BitVec 8

namespace TimestampPkt

variable (pkt : TimestampPkt)

/-- A byte of the Ethernet header under a mask. -/
def eth (addr : Nat) (mask : BitVec 32) : BitVec 32 :=
  (pkt.ethPtr addr).setWidth 32 &&& mask

def year : BitVec 32 := pkt.eth 3 0x07#32 <<< 8 ||| pkt.eth 4 0xff#32

def month : BitVec 32 := pkt.eth 5 0xf0#32 >>> 4

def day : BitVec 32 := pkt.eth 5 0x0f#32 <<< 1 ||| pkt.eth 6 0x80#32 >>> 7

def hour : BitVec 32 := pkt.eth 6 0x7c#32 >>> 2

def minute : BitVec 32 := pkt.eth 6 0x03#32 <<< 4 ||| pkt.eth 7 0xf0#32 >>> 4

def second : BitVec 32 := pkt.eth 7 0x0f#32 <<< 2 ||| pkt.eth 8 0xc0#32 >>> 6

def ms : BitVec 32 := pkt.eth 8 0x3f#32 <<< 4 ||| pkt.eth 9 0xf0#32 >>> 4

def us : BitVec 32 := pkt.eth 9 0x0f#32 <<< 6 ||| pkt.eth 10 0xfc#32 >>> 2

def ns : BitVec 32 := pkt.eth 10 0x03#32 <<< 8 ||| pkt.eth 11 0xff#32

/-- Where the two functions find the address: in the IPv4 header the source, in
the IPv6 header the last word of the source. -/
def sipOffset : Nat :=
  match pkt.version with
  | .v4 => 12
  | .v6 => 20

/-- `UP32`. -/
def sip : BitVec 32 :=
  (pkt.ipPtr pkt.sipOffset).setWidth 32 <<< 24 |||
    (pkt.ipPtr (pkt.sipOffset + 1)).setWidth 32 <<< 16 |||
    (pkt.ipPtr (pkt.sipOffset + 2)).setWidth 32 <<< 8 |||
    (pkt.ipPtr (pkt.sipOffset + 3)).setWidth 32

def xeport : Nat := if pkt.ipprt = 0 then 0 else 1

def ipport : Nat := (pkt.ipPtr pkt.sipOffset).toNat % 16

/-- `timestamp_checks` has one entry for each of these. -/
def ports : Nat × Nat := (pkt.xeport, pkt.ipport)

/-- `stamptime`.  Up to the seconds it is computed in 32 bits. -/
def stamptime : BitVec 64 :=
  let temp := pkt.second + pkt.minute * 60#32 + pkt.hour * 3600#32 +
    (pkt.year * 365#32 + pkt.month * 30#32 + pkt.day) * 24#32 * 3600#32
  (pkt.ns + pkt.us * 1000#32 + pkt.ms * 1000000#32).setWidth 64 +
    temp.setWidth 64 * 1000000000#64

end TimestampPkt

/-- The counters that a pair of ports has, in their order. -/
inductive PortStat where
  | rxxPkts
  | yearInvalidPkts
  | monthInvalidPkts
  | dayInvalidPkts
  | hourInvalidPkts
  | minuteInvalidPkts
  | secondInvalidPkts
  | ipErrPkts
  | timestampErrPkts
deriving DecidableEq, Repr

/-- The index in `timestamp_stat`, the counters of a port being 19. -/
def PortStat.index (cnt : PortStat) (ports : Nat × Nat) : Nat :=
  (if ports.1 = 0 then 7 else 16) + cnt.ctorIdx + ports.2 * 19

/-- `struct timestamp_check` without its lock. -/
structure TimestampEntry where
  update : Bool
  sip : BitVec 32
  timestamp : BitVec 64
deriving DecidableEq, Repr

/-- `timestamp_stat` and `timestamp_checks`. -/
structure TimestampCheck where
  stat : Nat → BitVec 64
  checks : Nat × Nat → TimestampEntry

/-- `frcore_timestamp_check_init`, all counters being zero. -/
def TimestampCheck.init : TimestampCheck :=
  ⟨fun _ => 0, fun _ => ⟨false, 0, 0⟩⟩

/-- `FRCORE_TIMESTAMP_STAT_ADD`. -/
def statAdd (stat : Nat → BitVec 64) (cnt : Nat) (val : BitVec 64) :
    Nat → BitVec 64 :=
  Function.update stat cnt (stat cnt + val)

namespace TimestampPkt

variable (pkt : TimestampPkt)

/-- The counters that every packet raises. -/
def statRx (stat : Nat → BitVec 64) : Nat → BitVec 64 :=
  let stat := statAdd (statAdd stat 0 1#64) 1 pkt.len
  let stat := statAdd stat (if pkt.xeport = 0 then 2 else 4) 1#64
  let stat := statAdd stat (if pkt.xeport = 0 then 3 else 5) pkt.len
  let stat := statAdd stat (6 + pkt.ipport * 19) 1#64
  statAdd stat (PortStat.rxxPkts.index pkt.ports) 1#64

/-- The checks of the fields; a minute and a second may be 60. -/
def invalid : List PortStat :=
  (if pkt.year < 1970#32 ∨ 2050#32 < pkt.year then [.yearInvalidPkts] else []) ++
  (if pkt.month < 1#32 ∨ 12#32 < pkt.month then [.monthInvalidPkts] else []) ++
  (if pkt.day < 1#32 ∨ 31#32 < pkt.day then [.dayInvalidPkts] else []) ++
  (if 23#32 < pkt.hour then [.hourInvalidPkts] else []) ++
  (if 60#32 < pkt.minute then [.minuteInvalidPkts] else []) ++
  (if 60#32 < pkt.second then [.secondInvalidPkts] else [])

/-- `frcore_timestamp_check_v4` and `frcore_timestamp_check_v6`, which differ in
where they find the address.  The entry is written by the first packet only. -/
def frcoreTimestampCheck (check : TimestampCheck) : TimestampCheck :=
  let stat := pkt.statRx check.stat
  let entry := check.checks pkt.ports
  if pkt.invalid ≠ [] then
    ⟨pkt.invalid.foldl (fun stat cnt => statAdd stat (cnt.index pkt.ports) 1#64)
      stat, check.checks⟩
  else if entry.update then
    if pkt.sip ≤ entry.sip then
      ⟨statAdd stat (PortStat.ipErrPkts.index pkt.ports) 1#64, check.checks⟩
    else if pkt.stamptime ≤ entry.timestamp then
      ⟨statAdd stat (PortStat.timestampErrPkts.index pkt.ports) 1#64,
        check.checks⟩
    else ⟨stat, check.checks⟩
  else
    ⟨stat, Function.update check.checks pkt.ports
      ⟨true, pkt.sip, pkt.stamptime⟩⟩

end TimestampPkt

/-- The number of days of a month. -/
def daysInMonth (year month : Nat) : Nat :=
  if month = 2 then
    if year % 4 = 0 ∧ (year % 100 ≠ 0 ∨ year % 400 = 0) then 29 else 28
  else if month = 4 ∨ month = 6 ∨ month = 9 ∨ month = 11 then 30
  else 31

/-- The fields of a packet are a time of the calendar. -/
@[mk_iff]
structure TimestampPkt.Real (pkt : TimestampPkt) : Prop where
  year_ge : 1970 ≤ pkt.year.toNat
  year_le : pkt.year.toNat ≤ 2050
  month_ge : 1 ≤ pkt.month.toNat
  month_le : pkt.month.toNat ≤ 12
  day_ge : 1 ≤ pkt.day.toNat
  day_le : pkt.day.toNat ≤ daysInMonth pkt.year.toNat pkt.month.toNat
  hour_le : pkt.hour.toNat ≤ 23
  minute_le : pkt.minute.toNat ≤ 59
  second_le : pkt.second.toNat ≤ 59
  ms_le : pkt.ms.toNat ≤ 999
  us_le : pkt.us.toNat ≤ 999
  ns_le : pkt.ns.toNat ≤ 999

instance TimestampPkt.decidableReal (pkt : TimestampPkt) : Decidable pkt.Real :=
  decidable_of_iff' _ (TimestampPkt.real_iff pkt)

/-- A packet with a time of the calendar. -/
structure RealPkt extends TimestampPkt where
  real : toTimestampPkt.Real

/-- The time of the calendar, to be compared field by field. -/
def RealPkt.time (pkt : RealPkt) : List Nat :=
  [pkt.year.toNat, pkt.month.toNat, pkt.day.toNat, pkt.hour.toNat,
    pkt.minute.toNat, pkt.second.toNat, pkt.ms.toNat, pkt.us.toNat, pkt.ns.toNat]

/-- The check, and for each pair of ports the packets that were not flagged. -/
structure TimestampRun where
  check : TimestampCheck
  passed : Nat × Nat → List RealPkt

def TimestampRun.init : TimestampRun := ⟨.init, fun _ => []⟩

/-- An error counter of the packet's ports has changed. -/
def RealPkt.Flagged (pkt : RealPkt) (check next : TimestampCheck) : Prop :=
  next.stat (PortStat.ipErrPkts.index pkt.ports) ≠
      check.stat (PortStat.ipErrPkts.index pkt.ports) ∨
    next.stat (PortStat.timestampErrPkts.index pkt.ports) ≠
      check.stat (PortStat.timestampErrPkts.index pkt.ports)

instance RealPkt.decidableFlagged (pkt : RealPkt) (check next : TimestampCheck) :
    Decidable (pkt.Flagged check next) :=
  inferInstanceAs (Decidable (_ ∨ _))

def TimestampRun.step (run : TimestampRun) (pkt : RealPkt) :
    Option TimestampRun :=
  let next := pkt.frcoreTimestampCheck run.check
  some ⟨next,
    if pkt.Flagged run.check next then run.passed
    else Function.update run.passed pkt.ports (run.passed pkt.ports ++ [pkt])⟩

/-- The address is not greater than that of the last packet that passed. -/
def TimestampRun.SipError (run : TimestampRun) (pkt : RealPkt) : Prop :=
  ∃ last, (run.passed pkt.ports).getLast? = some last ∧ pkt.sip ≤ last.sip

/-- The time is not later than that of the last packet that passed. -/
def TimestampRun.TimeError (run : TimestampRun) (pkt : RealPkt) : Prop :=
  ∃ last, (run.passed pkt.ports).getLast? = some last ∧ ¬ last.time < pkt.time

/-- The counter is raised by one if the error is there, and else kept. -/
structure Counts (stat next : Nat → BitVec 64) (cnt : Nat) (err : Prop) :
    Prop where
  raised : err → next cnt = stat cnt + 1#64
  kept : ¬ err → next cnt = stat cnt

/-- A packet is counted as it should be. -/
def TimestampRun.Does (run : TimestampRun) (pkt : RealPkt) (next : TimestampRun) :
    Prop :=
  Counts run.check.stat next.check.stat (PortStat.ipErrPkts.index pkt.ports)
      (run.SipError pkt) ∧
    Counts run.check.stat next.check.stat
      (PortStat.timestampErrPkts.index pkt.ports)
      (¬ run.SipError pkt ∧ run.TimeError pkt)

/-- From 2042-10-24 01:04:00 on the seconds start again at zero. -/
def RealPkt.Wrapped (pkt : RealPkt) : Prop :=
  ¬ pkt.time < [2042, 10, 24, 1, 4]

instance RealPkt.decidableWrapped (pkt : RealPkt) : Decidable pkt.Wrapped :=
  inferInstanceAs (Decidable (¬ _))

/-- The time as the code orders it: the wrapped ones first, and months of 30
days, so that a day 31 is the first day of the month after it. -/
def RealPkt.skewed (pkt : RealPkt) : List Nat :=
  [if pkt.Wrapped then 0 else 1, pkt.year.toNat,
    30 * (pkt.month.toNat - 1) + (pkt.day.toNat - 1), pkt.hour.toNat,
    pkt.minute.toNat, pkt.second.toNat, pkt.ms.toNat, pkt.us.toNat, pkt.ns.toNat]

/-- The comparison with the first packet that passed turns out as that with the
last one: the address does not lie between theirs, and if it is greater, the
skewed times of the first and this packet are ordered as the times of the last
and this one are. -/
def TimestampRun.Allows (run : TimestampRun) (pkt : RealPkt) : Prop :=
  ∀ first last, (run.passed pkt.ports).head? = some first →
    (run.passed pkt.ports).getLast? = some last →
      ¬ (first.sip < pkt.sip ∧ pkt.sip ≤ last.sip) ∧
      (last.sip < pkt.sip →
        (first.skewed < pkt.skewed ↔ last.time < pkt.time))

end Barley
