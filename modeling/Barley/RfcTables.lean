/-
The recursive flow classifier as the data plane builds and reads it: seven
swept tables of phase 0, six cross-product tables of phases 1 to 3, rebuilt in
place from the filter array, and the six-index lookup through them.
-/
import Barley.RuleBitmap
import Mathlib.Algebra.Ring.Nat
import Mathlib.Data.Fin.VecNotation
import Mathlib.Tactic.FinCases

namespace Barley

/-- `ACL_ENABLE`, the state of a filter that takes part in the build. -/
def aclEnable : Nat := 2

/-- `ACL_UNSET`. -/
def aclUnset : Nat := 0

/-- `ACL_SYNC`: the filter is part of the tables. -/
def aclSync : Nat := 1

/-- `ACL_NOSYNC`. -/
def aclNosync : Nat := 0

/-- `ACL_MAX_CELL`, the number of cells of a cross-product table. -/
def aclMaxCell : Nat := 1000000

/-- The number of cells of a phase 0 table.  Irreducible, so that no proof
ever counts the cells one by one. -/
@[irreducible] def phase0Cells : Nat := 65536

/-- The dimensions of a filter can be written as literals. -/
theorem neZero_dims : NeZero 7 := ⟨by decide⟩

/-- So can the tables of phase 1. -/
theorem neZero_phase1 : NeZero 3 := ⟨by decide⟩

/-- And those of phase 2. -/
theorem neZero_phase2 : NeZero 2 := ⟨by decide⟩

/-- `struct FILTER`: a tag, its flags and one range for each dimension (source
high and low half, destination high and low half, ports, protocol). -/
structure Filter where
  cost : Nat
  sync : Nat
  state : Nat
  op : Nat
  action : Nat
  ruleType : Nat
  ruleSource : Nat
  dim : Fin 7 → Nat × Nat

/-- `struct FILTSET`: the filter array with the number of its used slots, and
the hit counters, which are indexed by tag. -/
structure Filtset where
  numFilters : Nat
  filtArr : Nat → Filter
  pktNum : Nat → Int
  pktBytes : Nat → Int

/-- The used slots are strictly sorted by tag. -/
def Filtset.Sorted (filtset : Filtset) : Prop :=
  ∀ i j, i < j → j < filtset.numFilters →
    (filtset.filtArr i).cost < (filtset.filtArr j).cost

/-- One equivalence class: its number and the rules that cover it. -/
structure CES where
  eqID : Nat
  cbm : Bmp

/-- `LISTEqS`.  Only the first `nCES` slots of the array are ever read, so the
list of them is the whole content. -/
structure ListEqS where
  ces : List CES

def ListEqS.nCES (listEqs : ListEqS) : Nat := listEqs.ces.length

/-- A phase 0 table: a class number for every 16 bit value. -/
structure Pnode where
  cell : Nat → Nat
  listEqs : ListEqS

/-- A cross-product table; only the first `ncells` cells are in use. -/
structure Pnoder where
  ncells : Nat
  cell : Nat → Nat
  listEqs : ListEqS

/-- `mpp_acl_filtset`: the rules and the tables built from them. -/
structure MppAclFiltset where
  filtset : Filtset
  phase0Nodes : Fin 7 → Pnode
  phase1Nodes : Fin 3 → Pnoder
  phase2Nodes : Fin 2 → Pnoder
  phase3Node : Pnoder

/-- Zeroed tables around a set of filters. -/
def MppAclFiltset.ofFiltset (filtset : Filtset) : MppAclFiltset where
  filtset := filtset
  phase0Nodes _ := ⟨fun _ => 0, ⟨[]⟩⟩
  phase1Nodes _ := ⟨0, fun _ => 0, ⟨[]⟩⟩
  phase2Nodes _ := ⟨0, fun _ => 0, ⟨[]⟩⟩
  phase3Node := ⟨0, fun _ => 0, ⟨[]⟩⟩

/-- `ACL_OK` or `ACL_ERROR`. -/
inductive AclRet where
  | ok
  | error
deriving DecidableEq, Repr

/-- A build step: its return value and the state it leaves.  `none` is a
write behind the last slot of a class list, after which the program has no
meaning. -/
abbrev Build (S : Type) := Option (AclRet × S)

/-- Go on only after `ACL_OK`; an error is returned with the state as it is. -/
def Build.andThen {S : Type} (result : Build S) (next : S → Build S) :
    Build S :=
  match result with
  | some (.ok, state) => next state
  | other => other

def initListEqs : ListEqS := ⟨[]⟩

/-- The number of the class with this bitmap, `none` for `-1`. -/
def searchBmp (listEqs : ListEqS) (tbmp : Bmp) : Option Nat :=
  listEqs.ces.findIdx? fun tCES => compareBmp tCES.cbm tbmp

/-- Append a class.  The array has `mppMaxFilters` slots and the function has
no check, so a further class is written outside of it. -/
def addListEqsCES (listEqs : ListEqS) (tbmp : Bmp) : Option (ListEqS × Nat) :=
  if listEqs.nCES < mppMaxFilters then
    some (⟨listEqs.ces ++ [⟨listEqs.nCES, tbmp⟩]⟩, listEqs.nCES)
  else none

/-- The step shared by every filling loop: search the bitmap and add it when
the search gives `-1`. -/
def findOrAddCES (listEqs : ListEqS) (tbmp : Bmp) : Option (ListEqS × Nat) :=
  match searchBmp listEqs tbmp with
  | some tempeqID => some (listEqs, tempeqID)
  | none => addListEqsCES listEqs tbmp

/-- Run that step over the bitmaps of a loop, in loop order; the second
component is the class number stored in each cell. -/
def fillCells : ListEqS → List Bmp → Option (ListEqS × List Nat)
  | listEqs, [] => some (listEqs, [])
  | listEqs, tbmp :: rest =>
      (findOrAddCES listEqs tbmp).bind fun step =>
        (fillCells step.1 rest).map fun done => (done.1, step.2 :: done.2)

/-- Store values in the cells `0, 1, ...`; the cells after them keep what they
held. -/
def storeCells (cell : Nat → Nat) (values : List Nat) : Nat → Nat :=
  fun indx => (values[indx]?).getD (cell indx)

/-- The change filter `i` makes at value `n` of the number line: a range that
starts here is set, a range that ended one value before is cleared. -/
def updateBmpBit (filtset : Filtset) (com : Fin 7) (n : Nat) (bmp : Bmp)
    (i : Nat) : Bmp :=
  if (filtset.filtArr i).state ≠ aclEnable then bmp
  else
    let tempstart := ((filtset.filtArr i).dim com).1
    let tempend := ((filtset.filtArr i).dim com).2
    let bmp := if tempstart = n then setBmpBit bmp i true else bmp
    if (tempend + 1) % 2 ^ 32 = n then setBmpBit bmp i false else bmp

/-- All filters in turn, at value `n`. -/
def updateBmp (filtset : Filtset) (com : Fin 7) (n : Nat) (bmp : Bmp) : Bmp :=
  (List.range filtset.numFilters).foldl (updateBmpBit filtset com n) bmp

/-- The running bitmap at `count` consecutive values from `n` on. -/
def scanBmps (filtset : Filtset) (com : Fin 7) :
    Nat → Nat → Bmp → List Bmp
  | 0, _, _ => []
  | count + 1, n, bmp =>
      let bmp := updateBmp filtset com n bmp
      bmp :: scanBmps filtset com count (n + 1) bmp

/-- One component of `SetPhase0_Cell`. -/
def setPhase0Node (filtset : Filtset) (com : Fin 7) (node : Pnode) :
    Option Pnode :=
  (fillCells initListEqs (scanBmps filtset com phase0Cells 0 zeroBmp)).map
    fun done => ⟨storeCells node.cell done.2, done.1⟩

/-- `set_filt_sync`: enabled filters are marked as part of the tables. -/
def setFiltSync (filtset : Filtset) : Filtset :=
  { filtset with
    filtArr := fun i =>
      if i < filtset.numFilters then
        if (filtset.filtArr i).state ≠ aclEnable then
          { filtset.filtArr i with sync := aclNosync }
        else { filtset.filtArr i with sync := aclSync }
      else filtset.filtArr i }

/-- One turn of the outer loop of `SetPhase0_Cell`. -/
def setPhase0Turn (acl : MppAclFiltset) (com : Fin 7) : Option MppAclFiltset :=
  (setPhase0Node acl.filtset com (acl.phase0Nodes com)).map fun node =>
    { acl with phase0Nodes := Function.update acl.phase0Nodes com node }

/-- `SetPhase0_Cell`: sweep the seven components, then set the sync flags. -/
def setPhase0Cell (acl : MppAclFiltset) : Build MppAclFiltset :=
  ((List.finRange 7).foldlM setPhase0Turn acl).map fun acl =>
    (.ok, { acl with filtset := setFiltSync acl.filtset })

/-- The intersections of the two class lists in the order of the nested
loops. -/
def intersectedBmps (tnode1 tnode2 : ListEqS) : List Bmp :=
  tnode1.ces.flatMap fun tCES1 =>
    tnode2.ces.map fun tCES2 => intersectBmp tCES1.cbm tCES2.cbm

/-- One table of phase 1 or 2.  Its class list is emptied before the size
check; a table that is too large keeps its old cells and cell count. -/
def crossNode (tnode1 tnode2 : ListEqS) (node : Pnoder) : Build Pnoder :=
  let node := { node with listEqs := initListEqs }
  let cellNum := tnode1.nCES * tnode2.nCES
  if aclMaxCell < cellNum then some (.error, node)
  else
    (fillCells node.listEqs (intersectedBmps tnode1 tnode2)).map fun done =>
      (.ok, ⟨cellNum, storeCells node.cell done.2, done.1⟩)

/-- The components that table `com` of phase 1 combines. -/
def phase1Inputs : Fin 3 → Fin 7 × Fin 7
  | 0 => (0, 1)
  | 1 => (2, 3)
  | 2 => (4, 5)

/-- One turn of the loop of `SetPhase1_Cell`. -/
def setPhase1Node (com : Fin 3) (acl : MppAclFiltset) : Build MppAclFiltset :=
  (crossNode (acl.phase0Nodes (phase1Inputs com).1).listEqs
    (acl.phase0Nodes (phase1Inputs com).2).listEqs
    (acl.phase1Nodes com)).map fun done =>
      (done.1, { acl with
        phase1Nodes := Function.update acl.phase1Nodes com done.2 })

def setPhase1Cell (acl : MppAclFiltset) : Build MppAclFiltset :=
  ((setPhase1Node 0 acl).andThen (setPhase1Node 1)).andThen (setPhase1Node 2)

/-- The class lists that table `com` of phase 2 combines: both addresses, or
the ports with the protocol of phase 0. -/
def phase2Inputs (acl : MppAclFiltset) : Fin 2 → ListEqS × ListEqS
  | 0 => ((acl.phase1Nodes 0).listEqs, (acl.phase1Nodes 1).listEqs)
  | 1 => ((acl.phase1Nodes 2).listEqs, (acl.phase0Nodes 6).listEqs)

/-- One turn of the loop of `SetPhase2_Cell`. -/
def setPhase2Node (com : Fin 2) (acl : MppAclFiltset) : Build MppAclFiltset :=
  (crossNode (phase2Inputs acl com).1 (phase2Inputs acl com).2
    (acl.phase2Nodes com)).map fun done =>
      (done.1, { acl with
        phase2Nodes := Function.update acl.phase2Nodes com done.2 })

def setPhase2Cell (acl : MppAclFiltset) : Build MppAclFiltset :=
  (setPhase2Node 0 acl).andThen (setPhase2Node 1)

/-- `acl_get_tagid_by_ruleid`: the tag of a slot, returned as `uint16_t`. -/
def aclGetTagidByRuleid (filtset : Filtset) (ruleid : Nat) : Nat :=
  (filtset.filtArr ruleid).cost % 2 ^ 16

/-- `SetPhase3_Cell`: the last table holds tags instead of classes. -/
def setPhase3Cell (acl : MppAclFiltset) : Build MppAclFiltset :=
  let tnode1 := (acl.phase2Nodes 0).listEqs
  let tnode2 := (acl.phase2Nodes 1).listEqs
  let node := { acl.phase3Node with listEqs := initListEqs }
  let cellNum := tnode1.nCES * tnode2.nCES
  if aclMaxCell < cellNum then some (.error, { acl with phase3Node := node })
  else
    let tags := (intersectedBmps tnode1 tnode2).map fun endBmp =>
      aclGetTagidByRuleid acl.filtset (getRuleCost endBmp)
    some (.ok, { acl with
      phase3Node := ⟨cellNum, storeCells node.cell tags, node.listEqs⟩ })

/-- `pre_acl_lookup_by_tuple`: `ok` is returned as `FRE_SUCCESS`, `error` as
`MC_ERROR`. -/
def preAclLookupByTuple (acl : MppAclFiltset) : Build MppAclFiltset :=
  (((setPhase0Cell acl).andThen setPhase1Cell).andThen setPhase2Cell).andThen
    setPhase3Cell

/-- The packet fields the classifier reads, each within its C type. -/
structure AclTuple where
  siph : Nat
  sipl : Nat
  diph : Nat
  dipl : Nat
  sp : Nat
  dp : Nat
  proto : Nat
  siph_lt : siph < 65536
  sipl_lt : sipl < 65536
  diph_lt : diph < 65536
  dipl_lt : dipl < 65536
  sp_lt : sp < 65536
  dp_lt : dp < 65536
  proto_lt : proto < 256

/-- The field of a tuple that component `com` looks at. -/
def AclTuple.field (tuple : AclTuple) : Fin 7 → Nat :=
  ![tuple.siph, tuple.sipl, tuple.diph, tuple.dipl, tuple.sp, tuple.dp,
    tuple.proto]

theorem AclTuple.field_lt (tuple : AclTuple) (com : Fin 7) :
    tuple.field com < phase0Cells := by
  have hproto := tuple.proto_lt
  rw [phase0Cells]
  fin_cases com
  · exact tuple.siph_lt
  · exact tuple.sipl_lt
  · exact tuple.diph_lt
  · exact tuple.dipl_lt
  · exact tuple.sp_lt
  · exact tuple.dp_lt
  · exact Nat.lt_trans hproto (by decide)

/-- The tables in the order in which the lookup indexes them. -/
def MppAclFiltset.tables (acl : MppAclFiltset) : Fin 6 → Pnoder :=
  ![acl.phase1Nodes 0, acl.phase1Nodes 1, acl.phase1Nodes 2,
    acl.phase2Nodes 0, acl.phase2Nodes 1, acl.phase3Node]

/-- The six indexes `indx[0..5]` of a lookup. -/
def aclLookupIndx (acl : MppAclFiltset) (tuple : AclTuple) : Fin 6 → Nat :=
  let cid := fun com => (acl.phase0Nodes com).cell (tuple.field com)
  let indx0 := cid 0 * (acl.phase0Nodes 1).listEqs.nCES + cid 1
  let indx1 := cid 2 * (acl.phase0Nodes 3).listEqs.nCES + cid 3
  let indx2 := cid 4 * (acl.phase0Nodes 5).listEqs.nCES + cid 5
  let cid7 := (acl.phase1Nodes 0).cell indx0
  let cid8 := (acl.phase1Nodes 1).cell indx1
  let cid9 := (acl.phase1Nodes 2).cell indx2
  let indx3 := cid7 * (acl.phase1Nodes 1).listEqs.nCES + cid8
  let indx4 := cid9 * (acl.phase0Nodes 6).listEqs.nCES + cid 6
  let cid10 := (acl.phase2Nodes 0).cell indx3
  let cid11 := (acl.phase2Nodes 1).cell indx4
  let indx5 := cid10 * (acl.phase2Nodes 1).listEqs.nCES + cid11
  ![indx0, indx1, indx2, indx3, indx4, indx5]

/-- `acl_lookup_by_tuple`: the tag stored for the packet. -/
def aclLookupByTuple (acl : MppAclFiltset) (tuple : AclTuple) : Nat :=
  acl.phase3Node.cell (aclLookupIndx acl tuple 5)

end Barley
