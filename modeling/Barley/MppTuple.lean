/-
The five-tuple of a packet, with the fields that share its two words.
-/
import Mathlib.Tactic.Common

namespace Barley

/-- `struct mpp_tuple`. -/
structure MppTuple where
  sip : BitVec 32
  dip : BitVec 32
  sp : BitVec 16
  dp : BitVec 16
  proto : BitVec 8
  sessionType : BitVec 3
  ipif : BitVec 5
  rsv : BitVec 16
deriving DecidableEq, Repr

end Barley
