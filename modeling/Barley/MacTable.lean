/-
The table of MAC addresses with their counters, and when its commands behave as
those of a list.
-/
import Mathlib.Data.List.Basic
import Barley.FrcTypes
import Barley.GuardedRuns

namespace Barley

/-- `MAX_MAC_NUM`. -/
def maxMacNum : Nat := 512

/-- `struct frc_mac_stat`. -/
structure FrcMacStat where
  mac : BitVec 64
  total : BitVec 64
  errors : BitVec 64
deriving DecidableEq, Repr

/-- `mac_num` and `global_mac_stat`. -/
structure MacTable where
  macNum : Nat
  globalMacStat : Nat → FrcMacStat

def MacTable.init : MacTable := ⟨0, fun _ => ⟨0, 0, 0⟩⟩

/-- `frcore_mac_statistics_add_mac`. -/
def frcoreMacStatisticsAddMac (table : MacTable) (mac : BitVec 64) :
    Fre × MacTable :=
  if mac = 0 then (.fail, table)
  else if table.macNum = maxMacNum then (.nospace, table)
  else
    (.success, ⟨table.macNum + 1,
      Function.update table.globalMacStat table.macNum ⟨mac, 0, 0⟩⟩)

/-- The inner loop of `frcore_mac_statistics_del_mac`: each of the entries up
to the given one gets the next one. -/
def shiftDown (stats : Nat → FrcMacStat) : Nat → Nat → FrcMacStat
  | 0 => stats
  | count + 1 =>
      Function.update (shiftDown stats count) count
        (shiftDown stats count (count + 1))

/-- `frcore_mac_statistics_del_mac`.  Both branches of the outer loop return,
so there is only its first round; the address is compared with zero where it
should be cleared. -/
def frcoreMacStatisticsDelMac (table : MacTable) (mac : BitVec 64) :
    Fre × MacTable :=
  if mac = 0 then (.fail, table)
  else if table.macNum = 0 then (.fail, table)
  else if (table.globalMacStat 0).mac = mac then
    let cleared := Function.update table.globalMacStat 0
      { table.globalMacStat 0 with total := 0, errors := 0 }
    (.success, ⟨table.macNum - 1, shiftDown cleared (table.macNum - 1)⟩)
  else (.notfound, table)

/-- The counters of an entry for a packet that carries the given address. -/
def FrcMacStat.count (stat : FrcMacStat) (mac : BitVec 64) : FrcMacStat :=
  if stat.mac = 0 then stat
  else if stat.mac = mac then { stat with total := stat.total + 1 }
  else { stat with total := stat.total + 1, errors := stat.errors + 1 }

/-- The end of `frcore_mac_statistics_counter_inc`; `key` is what
`frcore_mac_statistics_hash` takes modulo the number of entries. -/
def frcoreMacStatisticsCounterInc (table : MacTable) (key : Nat)
    (mac : BitVec 64) : MacTable :=
  if table.macNum = 0 then table
  else
    { table with
      globalMacStat := Function.update table.globalMacStat (key % table.macNum)
        ((table.globalMacStat (key % table.macNum)).count mac) }

/-- What happens to the table: a command, or a packet. -/
inductive MacOp where
  | add (mac : BitVec 64)
  | del (mac : BitVec 64)
  | packet (key : Nat) (mac : BitVec 64)

/-- The addresses of the commands are not zero. -/
def MacOp.NonZero : MacOp → Prop
  | .add mac => mac ≠ 0
  | .del mac => mac ≠ 0
  | .packet _ _ => True

def MacOp.run (table : MacTable) : MacOp → Fre × MacTable
  | .add mac => frcoreMacStatisticsAddMac table mac
  | .del mac => frcoreMacStatisticsDelMac table mac
  | .packet key mac => (.success, frcoreMacStatisticsCounterInc table key mac)

def MacTable.step (table : MacTable) (op : MacOp) : Option MacTable :=
  some (op.run table).2

/-- The table as a list. -/
def MacTable.entries (table : MacTable) : List FrcMacStat :=
  (List.range table.macNum).map table.globalMacStat

/-- What the operation should do with the list. -/
def MacTable.Does (table : MacTable) (op : MacOp) (next : MacTable) : Prop :=
  next.entries.length ≤ maxMacNum ∧
  match op with
  | .add mac =>
      if table.entries.length < maxMacNum then
        (op.run table).1 = .success ∧
          next.entries = table.entries ++ [⟨mac, 0, 0⟩]
      else (op.run table).1 = .nospace ∧ next.entries = table.entries
  | .del mac =>
      if ∃ stat ∈ table.entries, stat.mac = mac then
        (op.run table).1 = .success ∧
          next.entries = table.entries.eraseP fun stat => stat.mac = mac
      else (op.run table).1 ≠ .success ∧ next.entries = table.entries
  | .packet key mac =>
      next.entries = table.entries.modify (key % table.macNum) fun stat =>
        stat.count mac

/-- An address that is deleted is not in the table, or its first one. -/
def MacTable.Allows (table : MacTable) : MacOp → Prop
  | .del mac => (∃ stat ∈ table.entries, stat.mac = mac) →
      (table.globalMacStat 0).mac = mac
  | _ => True

section Lists

variable {table : MacTable}

theorem length_entries (table : MacTable) :
    table.entries.length = table.macNum := by
  rw [MacTable.entries, List.length_map, List.length_range]

theorem shiftDown_apply (stats : Nat → FrcMacStat) (count k : Nat) :
    shiftDown stats count k = if k < count then stats (k + 1) else stats k := by
  induction count generalizing k with
  | zero => rfl
  | succ count ih =>
      rw [shiftDown, Function.update_apply]
      by_cases hk : k = count
      · subst hk
        rw [if_pos rfl, if_pos (Nat.lt_succ_self k), ih,
          if_neg (Nat.not_lt.mpr (Nat.le_succ k))]
      · rw [if_neg hk, ih]
        exact if_congr (by omega) rfl rfl

/-- What the loop leaves is the list without its first entry. -/
theorem entries_shiftDown {stats stats' : Nat → FrcMacStat} {count : Nat}
    (h : ∀ k, 0 < k → stats' k = stats k) :
    (List.range count).map (shiftDown stats' count) =
      ((List.range (count + 1)).map stats).tail := by
  rw [List.range_succ_eq_map, List.map_cons, List.tail_cons, List.map_map]
  refine List.map_congr_left fun k hk => ?_
  rw [shiftDown_apply, if_pos (List.mem_range.mp hk)]
  exact h (k + 1) (Nat.succ_pos k)

theorem entries_push (count : Nat) (stats : Nat → FrcMacStat)
    (stat : FrcMacStat) :
    MacTable.entries ⟨count + 1, Function.update stats count stat⟩ =
      MacTable.entries ⟨count, stats⟩ ++ [stat] := by
  have hbelow : (List.range count).map (Function.update stats count stat) =
      (List.range count).map stats := List.map_congr_left fun k hk =>
    Function.update_of_ne (Nat.ne_of_lt (List.mem_range.mp hk)) _ _
  have hlast : Function.update stats count stat count = stat :=
    Function.update_self ..
  simp only [MacTable.entries, List.range_succ, List.map_append,
    List.map_singleton, hbelow, hlast]

theorem add_does (hnum : table.macNum ≤ maxMacNum) {mac : BitVec 64}
    (hmac : mac ≠ 0) :
    table.Does (.add mac) (frcoreMacStatisticsAddMac table mac).2 := by
  simp only [MacTable.Does, MacOp.run, length_entries,
    frcoreMacStatisticsAddMac, if_neg hmac]
  by_cases hfull : table.macNum = maxMacNum
  · rw [if_pos hfull, if_neg (by omega)]
    exact ⟨hnum, rfl, rfl⟩
  · rw [if_neg hfull, if_pos (by omega)]
    refine ⟨by simp only; omega, rfl, ?_⟩
    exact entries_push _ _ _

theorem packet_does (hnum : table.macNum ≤ maxMacNum) (key : Nat)
    (mac : BitVec 64) :
    table.Does (.packet key mac)
      (frcoreMacStatisticsCounterInc table key mac) := by
  rw [MacTable.Does, length_entries, frcoreMacStatisticsCounterInc]
  by_cases hzero : table.macNum = 0
  · rw [if_pos hzero]
    refine ⟨hnum, ?_⟩
    have hnil : table.entries = [] :=
      List.length_eq_zero_iff.mp ((length_entries table).trans hzero)
    rw [hnil, List.modify_nil]
  · rw [if_neg hzero]
    refine ⟨hnum, List.ext_getElem ?_ fun k hk hk' => ?_⟩
    · rw [List.length_modify, length_entries, length_entries]
    · rw [List.getElem_modify]
      simp only [MacTable.entries, List.getElem_map, List.getElem_range,
        Function.update_apply]
      by_cases hkey : key % table.macNum = k
      · rw [if_pos hkey, if_pos hkey.symm, hkey]
      · rw [if_neg hkey, if_neg fun h => hkey h.symm]

/-- A deletion does what it should exactly when it is allowed. -/
theorem del_does_iff (hnum : table.macNum ≤ maxMacNum) {mac : BitVec 64}
    (hmac : mac ≠ 0) :
    table.Does (.del mac) (frcoreMacStatisticsDelMac table mac).2 ↔
      table.Allows (.del mac) := by
  simp only [MacTable.Does, MacTable.Allows, MacOp.run,
    frcoreMacStatisticsDelMac, if_neg hmac, length_entries]
  by_cases hzero : table.macNum = 0
  · have hnil : table.entries = [] :=
      List.length_eq_zero_iff.mp ((length_entries table).trans hzero)
    have hnone : ¬ ∃ stat ∈ table.entries, stat.mac = mac := by
      rw [hnil]
      simp
    rw [if_pos hzero, if_neg hnone]
    exact iff_of_true ⟨hnum, nofun, rfl⟩ fun h => absurd h hnone
  rw [if_neg hzero]
  obtain ⟨count, hcount⟩ := Nat.exists_eq_succ_of_ne_zero hzero
  have hcons : table.entries = table.globalMacStat 0 :: table.entries.tail := by
    rw [MacTable.entries, hcount, List.range_succ_eq_map]
    rfl
  by_cases hfirst : (table.globalMacStat 0).mac = mac
  · have hsome : ∃ stat ∈ table.entries, stat.mac = mac := by
      rw [hcons]
      exact ⟨_, List.mem_cons_self, hfirst⟩
    rw [if_pos hfirst, if_pos hsome]
    refine iff_of_true ⟨by simp only; omega, rfl, ?_⟩ fun _ => hfirst
    rw [hcons, List.eraseP_cons_of_pos (by simpa using hfirst)]
    simp only [MacTable.entries, hcount, Nat.succ_eq_add_one,
      Nat.add_sub_cancel]
    exact entries_shiftDown fun k hk => Function.update_of_ne (by omega) _ _
  · rw [if_neg hfirst]
    by_cases hsome : ∃ stat ∈ table.entries, stat.mac = mac
    · rw [if_pos hsome]
      refine iff_of_false ?_ fun h => hfirst (h hsome)
      rintro ⟨_, hcode, _⟩
      cases hcode
    · rw [if_neg hsome]
      exact iff_of_true ⟨hnum, nofun, rfl⟩ fun h => absurd h hsome

end Lists

/-- In every run the table behaves as a list exactly as long as each address
that is deleted is absent or the first one. -/
theorem macRun_list_iff (ops : List MacOp) (hops : ∀ op ∈ ops, op.NonZero) :
    GuardedRuns.Stepwise MacTable.step MacTable.Does .init ops ↔
      GuardedRuns.Each MacTable.step MacTable.Allows .init ops := by
  have hdoes : ∀ (table : MacTable) (op : MacOp), op.NonZero →
      table.macNum ≤ maxMacNum →
      (table.Does op (op.run table).2 ↔ table.Allows op) := by
    intro table op hop hnum
    cases op with
    | add mac => exact iff_of_true (add_does hnum hop) trivial
    | del mac => exact del_does_iff hnum hop
    | packet key mac => exact iff_of_true (packet_does hnum key mac) trivial
  refine GuardedRuns.stepwise_iff_each (fun table => table.macNum ≤ maxMacNum)
    MacOp.NonZero ?_ ?_ (Nat.zero_le _) hops
  · intro table op hop hnum
    rw [← hdoes table op hop hnum]
    constructor
    · rintro ⟨next, hnext, h⟩
      cases hnext
      exact h
    · exact fun h => ⟨_, rfl, h⟩
  · intro table op next hop hnum hallows hnext
    cases hnext
    have h := ((hdoes table op hop hnum).mpr hallows).1
    rwa [length_entries] at h

/-- The first of two addresses is deleted. -/
theorem macRun_list_firstDeleted :
    GuardedRuns.Stepwise MacTable.step MacTable.Does .init
      [.add 1, .add 2, .packet 7 2, .del 1] := by
  refine (macRun_list_iff _ (by simp [MacOp.NonZero])).mpr ?_
  refine ⟨trivial, fun _ hfirst => ⟨trivial, fun _ hsecond => ⟨trivial,
    fun _ hpacket => ⟨fun _ => ?_, fun _ _ => trivial⟩⟩⟩⟩
  cases hfirst
  cases hsecond
  cases hpacket
  decide

/-- The second of two addresses cannot be deleted. -/
theorem secondMac_not_deleted :
    ¬ GuardedRuns.Stepwise MacTable.step MacTable.Does .init
      [.add 1, .add 2, .del 2] := by
  rintro ⟨_, hfirst, -, _, hsecond, -, _, hlast, hdel, -⟩
  cases hfirst
  cases hsecond
  cases hlast
  have hsome : ∃ stat ∈ (MacOp.run (MacOp.run .init (.add 1)).2
      (.add 2)).2.entries, stat.mac = 2 := ⟨⟨2, 0, 0⟩, by decide, rfl⟩
  rw [MacTable.Does] at hdel
  have h := hdel.2
  rw [if_pos hsome] at h
  exact absurd h.1 (by decide)

end Barley
