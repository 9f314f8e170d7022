/-
The cores and the host at work on one channel.  A step is one move of the host
or one DMA copy of a core, so the host moves between the copies of a bulk
transfer; the locks let one core at a time work on either ring.
-/
import Barley.ChanRings
import Mathlib.Algebra.BigOperators.Group.Finset.Basic
import Mathlib.Algebra.Order.Group.Multiset

namespace Barley

/-- Where the core that has the lock of the available ring is in `avail_get`:
before its first copy of addresses, before the second, or before the new read
index is written. -/
inductive AvailOp (C : Type) where
  | free
  | first (core : C) (len : Nat)
  | second (core : C) (len : Nat) (got : List Nat)
  | publish (core : C) (len : Nat) (got : List Nat)

/-- Where the core that has the lock of the completed ring is in `compl_put`. -/
inductive ComplOp (C : Type) where
  | free
  | first (core : C)
  | second (core : C)
  | publish (core : C)

def AvailOp.core {C : Type} : AvailOp C → Option C
  | .free => none
  | .first core _ => some core
  | .second core _ _ => some core
  | .publish core _ _ => some core

def ComplOp.core {C : Type} : ComplOp C → Option C
  | .free => none
  | .first core => some core
  | .second core => some core
  | .publish core => some core

/-- The channel with the addresses that its users hold, and with the record of
what has entered and left its rings since the start. -/
structure ChanState (C : Type) where
  chan : SimpleChan
  availOp : AvailOp C
  complOp : ComplOp C
  held : C → List Nat
  host : List Nat
  availIn : List Nat
  availOut : List Nat
  complIn : List Nat
  complOut : List Nat

/-- How many addresses have been put into or taken from a ring. -/
def ChanState.transfers {C : Type} (s : ChanState C) : Nat :=
  s.availIn.length + s.availOut.length + s.complIn.length + s.complOut.length

theorem ChanState.complIn_lt {C : Type} {s : ChanState C}
    (hfew : s.transfers < 2 ^ 64) : s.complIn.length < 2 ^ 64 := by
  simp only [ChanState.transfers] at hfew
  omega

/-- The state that `frcdrv_simple_package_chan_avail_init` leaves, with the
cores' copies of the indexes synchronised. -/
def ChanState.start (C : Type) (avail : RingBuff) : ChanState C where
  chan :=
    { avail := avail
      compl := .zero
      availWidx := avail.widx
      availRidx := avail.ridx
      complWidx := 0
      complRidx := 0 }
  availOp := .free
  complOp := .free
  held := fun _ => []
  host := []
  availIn := []
  availOut := []
  complIn := []
  complOut := []

section Steps

variable {C : Type} [DecidableEq C]

namespace ChanState

/-- `avail_get` up to its check: it returns `FRE_NOSPACE` and unlocks, or goes
on to copy. -/
def availBegin (s : ChanState C) (core : C) (len : Nat) : ChanState C :=
  { s with
    chan := s.chan.syncAvail
    availOp := if s.chan.syncAvail.availLen < len then .free
      else .first core len }

def availCopyFirst (s : ChanState C) (core : C) (len : Nat) : ChanState C :=
  { s with
    availOp := if SimpleChan.len1 s.chan.availRidx len < len then
        .second core len (s.chan.availFirst len)
      else .publish core len (s.chan.availFirst len) }

def availCopySecond (s : ChanState C) (core : C) (len : Nat)
    (got : List Nat) : ChanState C :=
  { s with availOp := .publish core len (got ++ s.chan.availSecond len) }

def availPublish (s : ChanState C) (core : C) (len : Nat) (got : List Nat) :
    ChanState C :=
  { s with
    chan := (s.chan.storeAvail len).publishAvail
    availOp := .free
    held := Function.update s.held core got
    availOut := s.availOut ++ got }

/-- `compl_put` up to its check. -/
def complBegin (s : ChanState C) (core : C) : ChanState C :=
  { s with
    chan := s.chan.syncCompl
    complOp := if s.chan.syncCompl.complFull (s.held core).length then .free
      else .first core }

def complCopyFirst (s : ChanState C) (core : C) : ChanState C :=
  { s with
    chan := s.chan.complFirst (s.held core)
    complOp :=
      if SimpleChan.len1 s.chan.complWidx (s.held core).length <
          (s.held core).length then .second core
      else .publish core }

def complCopySecond (s : ChanState C) (core : C) : ChanState C :=
  { s with
    chan := s.chan.complSecond (s.held core)
    complOp := .publish core }

def complPublish (s : ChanState C) (core : C) : ChanState C :=
  { s with
    chan := (s.chan.storeCompl (s.held core).length).publishCompl
    complOp := .free
    held := Function.update s.held core []
    complIn := s.complIn ++ s.held core }

def hostTake (s : ChanState C) (addr : Nat) (ring : RingBuff) : ChanState C :=
  { s with
    chan := { s.chan with compl := ring }
    host := addr :: s.host
    complOut := s.complOut ++ [addr] }

def hostReturn (s : ChanState C) (addr : Nat) (ring : RingBuff) :
    ChanState C :=
  { s with
    chan := { s.chan with avail := ring }
    host := s.host.erase addr
    availIn := s.availIn ++ [addr] }

end ChanState

/-- One step of the host or of a core.  A core takes at most `postLwm`
addresses at a time, and only when it has put the last ones. -/
inductive ChanStep (postLwm : Nat) : ChanState C → ChanState C → Prop
  | hostTake {s : ChanState C} {addr : Nat} {ring : RingBuff}
      (hget : s.chan.compl.get = some (addr, ring)) :
      ChanStep postLwm s (s.hostTake addr ring)
  | hostReturn {s : ChanState C} {addr : Nat} {ring : RingBuff}
      (hmem : addr ∈ s.host) (hput : s.chan.avail.put addr = some ring) :
      ChanStep postLwm s (s.hostReturn addr ring)
  | availBegin {s : ChanState C} (core : C) {len : Nat}
      (hlock : s.availOp = .free) (hheld : s.held core = [])
      (hcore : s.complOp.core ≠ some core) (hlen : len ≤ postLwm) :
      ChanStep postLwm s (s.availBegin core len)
  | availCopyFirst {s : ChanState C} {core : C} {len : Nat}
      (hop : s.availOp = .first core len) :
      ChanStep postLwm s (s.availCopyFirst core len)
  | availCopySecond {s : ChanState C} {core : C} {len : Nat} {got : List Nat}
      (hop : s.availOp = .second core len got) :
      ChanStep postLwm s (s.availCopySecond core len got)
  | availPublish {s : ChanState C} {core : C} {len : Nat} {got : List Nat}
      (hop : s.availOp = .publish core len got) :
      ChanStep postLwm s (s.availPublish core len got)
  | complBegin {s : ChanState C} (core : C) (hlock : s.complOp = .free)
      (hcore : s.availOp.core ≠ some core) :
      ChanStep postLwm s (s.complBegin core)
  | complCopyFirst {s : ChanState C} {core : C}
      (hop : s.complOp = .first core) :
      ChanStep postLwm s (s.complCopyFirst core)
  | complCopySecond {s : ChanState C} {core : C}
      (hop : s.complOp = .second core) :
      ChanStep postLwm s (s.complCopySecond core)
  | complPublish {s : ChanState C} {core : C}
      (hop : s.complOp = .publish core) :
      ChanStep postLwm s (s.complPublish core)

/-- Every state that some order of steps leads to. -/
inductive ChanReachable (postLwm : Nat) (start : ChanState C) :
    ChanState C → Prop
  | start : ChanReachable postLwm start start
  | step {s s' : ChanState C} (h : ChanReachable postLwm start s)
      (hstep : ChanStep postLwm s s') : ChanReachable postLwm start s'

/-- The state after a call of `avail_get` that nobody interrupted. -/
def ChanState.afterGet (s : ChanState C) (core : C) :
    Fre × SimpleChan × List Nat → ChanState C
  | (.success, chan, idxBuff) =>
      { s with
        chan := chan
        held := Function.update s.held core idxBuff
        availOut := s.availOut ++ idxBuff }
  | (_, chan, _) => { s with chan := chan }

/-- The state after a call of `compl_put` that nobody interrupted. -/
def ChanState.afterPut (s : ChanState C) (core : C) :
    Fre × SimpleChan → ChanState C
  | (.success, chan) =>
      { s with
        chan := chan
        held := Function.update s.held core []
        complIn := s.complIn ++ s.held core }
  | (_, chan) => { s with chan := chan }

section Calls

variable {postLwm : Nat} {s : ChanState C} {core : C}

/-- The steps of a core are those of `avail_get`. -/
theorem ChanReachable.availGet {len : Nat} (hlock : s.availOp = .free)
    (hheld : s.held core = []) (hcore : s.complOp.core ≠ some core)
    (hlen : len ≤ postLwm) :
    ChanReachable postLwm s
      (s.afterGet core (chanAvailGet .ok s.chan len)) := by
  have hbegin : ChanReachable postLwm s (s.availBegin core len) :=
    ChanReachable.start.step (.availBegin core hlock hheld hcore hlen)
  simp only [chanAvailGet, AvailDma.ok, Bool.not_true, Bool.false_eq_true,
    if_false, and_false]
  by_cases hshort : s.chan.syncAvail.availLen < len
  · rw [if_pos hshort]
    have hend : s.availBegin core len =
        s.afterGet core (.nospace, s.chan.syncAvail, []) := by
      simp only [ChanState.availBegin, ChanState.afterGet, if_pos hshort,
        hlock]
    rw [← hend]
    exact hbegin
  · rw [if_neg hshort]
    have hfirst := hbegin.step (.availCopyFirst (if_neg hshort))
    by_cases hsplit : SimpleChan.len1 s.chan.syncAvail.availRidx len < len
    · have hsecond := hfirst.step (.availCopySecond
        (if_pos hsplit))
      have hpublish := hsecond.step (.availPublish rfl)
      rw [if_pos hsplit]
      simpa only [ChanState.availPublish, ChanState.availCopySecond,
        ChanState.availCopyFirst, ChanState.availBegin, ChanState.afterGet,
        hlock] using hpublish
    · have hpublish := hfirst.step (.availPublish (if_neg hsplit))
      rw [if_neg hsplit]
      simpa only [ChanState.availPublish, ChanState.availCopyFirst,
        ChanState.availBegin, ChanState.afterGet, hlock] using hpublish

/-- The steps of a core are those of `compl_put`. -/
theorem ChanReachable.complPut (hlock : s.complOp = .free)
    (hcore : s.availOp.core ≠ some core) :
    ChanReachable postLwm s
      (s.afterPut core (chanComplPut .ok s.chan (s.held core))) := by
  have hbegin : ChanReachable postLwm s (s.complBegin core) :=
    ChanReachable.start.step (.complBegin core hlock hcore)
  simp only [chanComplPut, ComplDma.ok, Bool.not_true, Bool.false_eq_true,
    if_false, and_false]
  by_cases hfull : s.chan.syncCompl.complFull (s.held core).length
  · rw [if_pos hfull]
    have hend : s.complBegin core =
        s.afterPut core (.nospace, s.chan.syncCompl) := by
      simp only [ChanState.complBegin, ChanState.afterPut, if_pos hfull,
        hlock]
    rw [← hend]
    exact hbegin
  · rw [if_neg hfull]
    have hfirst := hbegin.step (.complCopyFirst (if_neg hfull))
    by_cases hsplit : SimpleChan.len1 s.chan.syncCompl.complWidx
        (s.held core).length < (s.held core).length
    · have hsecond := hfirst.step (.complCopySecond (if_pos hsplit))
      have hpublish := hsecond.step (.complPublish rfl)
      rw [if_pos hsplit]
      simpa only [ChanState.complPublish, ChanState.complCopySecond,
        ChanState.complCopyFirst, ChanState.complBegin, ChanState.afterPut,
        hlock] using hpublish
    · have hpublish := hfirst.step (.complPublish (if_neg hsplit))
      rw [if_neg hsplit]
      simpa only [ChanState.complPublish, ChanState.complCopyFirst,
        ChanState.complBegin, ChanState.afterPut, hlock] using hpublish

end Calls

end Steps

end Barley
