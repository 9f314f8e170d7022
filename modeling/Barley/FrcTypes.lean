/-
What the host and the cores share: the range of rule tags and the return
codes.
-/
import Mathlib.Tactic.TypeStar

namespace Barley

/-- `ACL_INDEX_START`, the first rule tag. -/
def aclIndexStart : Nat := 1

/-- `ACL_MAX`, the last rule tag. -/
def aclMax : Nat := 2000

/-- `FRC_DMA_OFFSET`. -/
def frcDmaOffset : Nat := 40

/-- `FRE_SUCCESS` to `FRE_DIRECTION_FAIL`, in the order of their values. -/
inductive Fre where
  | success
  | fail
  | init
  | memory
  | unsupport
  | unregister
  | exist
  | dma
  | nospace
  | ioctl
  | open
  | busy
  | param
  | timeout
  | exceed
  | notfound
  | debug
  | directionFail
deriving DecidableEq, Repr

end Barley
