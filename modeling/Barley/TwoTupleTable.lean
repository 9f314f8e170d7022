/-
The table of two-tuple rules: an array of entries, one for each rule tag, and
for each kind of rule the buckets of a hash table that hold the tags of the
rules in use.
-/
import Barley.FrcTypes
import Barley.MachineWords

namespace Barley

/-- `FRCORE_MAX_FILTERS`. -/
def frcoreMaxFilters : Nat := 2 * 1024

/-- `FRCORE_ACL_HASH_TABLE_SIZE`. -/
def frcoreAclHashTableSize : Nat := frcoreMaxFilters * 4

/-- `FRC_ACL_UNKNOWN`, and the first and the last kind of rule. -/
def frcAclUnknown : Nat := 0

def frcAclSip : Nat := 1

def frcAclDp : Nat := 4

/-- `TwoTupleFilter`. -/
structure TwoTupleFilter where
  enable : Nat
  aclType : Nat
  action : Nat
  op : Nat
  aclSource : Nat
  proto : Nat
  oneTuple : Nat
  index : Nat
  hash : Nat
  pktNum : Nat
  pktBytes : Nat
deriving DecidableEq, Repr

def TwoTupleFilter.zero : TwoTupleFilter :=
  ⟨0, frcAclUnknown, 0, 0, 0, 0, 0, 0, 0, 0, 0⟩

/-- `frcore_acl_hash_table_t`: one bucket, with the tags of its cells. -/
structure AclHashTable where
  head : List Nat
  bucketDepth : Nat
  totalCell : Nat
  delCell : Nat
deriving DecidableEq, Repr

/-- The two-tuple part of the shared data: the rules with their number, and
the buckets. -/
structure FrcoreAcl where
  numFilters : Nat
  filterArr : Nat → TwoTupleFilter
  aclHashTable : Nat → AclHashTable

/-- `frcore_filter_init`. -/
def frcoreFilterInit : FrcoreAcl where
  numFilters := 0
  filterArr := fun _ => .zero
  aclHashTable := fun _ => ⟨[], 0, 0, 0⟩

/-- The entry of a rule tag. -/
def FrcoreAcl.entry (acl : FrcoreAcl) (index : Nat) : TwoTupleFilter :=
  acl.filterArr (index - 1)

/-- `acl_get_hash_table`: the number of the bucket. -/
def aclGetHashTable (aclType hash : Nat) : Option Nat :=
  if aclType ≤ frcAclUnknown ∨ frcAclDp < aclType then none
  else if frcoreMaxFilters ≤ hash then none
  else some (frcoreMaxFilters * (aclType - 1) + hash)

/-- `acl_delete_one_filter`, with the counters cleared by
`filter_init_filter_statistics`. -/
def aclDeleteOneFilter (acl : FrcoreAcl) (index : Nat) : FrcoreAcl :=
  { acl with
    numFilters := dec32 acl.numFilters
    filterArr := Function.update acl.filterArr (index - 1) .zero }

/-- The arguments of `acl_set_filter` after the tag. -/
structure FilterArgs where
  oneTuple : Nat
  proto : Nat
  op : Nat
  action : Nat
  aclType : Nat
  aclSource : Nat
deriving DecidableEq, Repr

/-- What `acl_add_one_filter` makes of an entry: the counters are left as they
are. -/
def TwoTupleFilter.write (filter : TwoTupleFilter) (index : Nat)
    (args : FilterArgs) (hash : Nat) : TwoTupleFilter :=
  { filter with
    aclType := args.aclType
    action := args.action
    op := args.op
    aclSource := args.aclSource
    proto := args.proto
    oneTuple := args.oneTuple
    index := index
    hash := hash
    enable := 1 }

/-- `acl_add_one_filter`. -/
def aclAddOneFilter (acl : FrcoreAcl) (index : Nat) (args : FilterArgs)
    (hash : Nat) : FrcoreAcl :=
  { acl with
    numFilters := inc32 acl.numFilters
    filterArr := Function.update acl.filterArr (index - 1)
      ((acl.entry index).write index args hash) }

/-- `acl_delete_one_filter_from_hash_table`, with `none` for `FRE_FAIL`. -/
def aclDeleteOneFilterFromHashTable (index : Nat) (bucket : AclHashTable) :
    Option AclHashTable :=
  if bucket.bucketDepth = 0 ∨ bucket.head = [] then none
  else if index ∈ bucket.head then
    some
      { bucket with
        head := bucket.head.erase index
        bucketDepth := sub64 bucket.bucketDepth 1
        delCell := add64 bucket.delCell 1 }
  else none

/-- `acl_add_one_filter_to_hash_table`: the bucket is found through the entry,
and the new cell goes to its end. -/
def aclAddOneFilterToHashTable (allocOk : Bool) (acl : FrcoreAcl)
    (index : Nat) : Fre × FrcoreAcl :=
  match aclGetHashTable (acl.entry index).aclType (acl.entry index).hash with
  | none => (.fail, acl)
  | some slot =>
      if !allocOk then (.fail, acl)
      else
        let bucket := acl.aclHashTable slot
        (.success, { acl with
          aclHashTable := Function.update acl.aclHashTable slot
            { bucket with
              head := bucket.head ++ [index]
              bucketDepth := add64 bucket.bucketDepth 1
              totalCell := add64 bucket.totalCell 1 } })

/-- What `acl_set_filter` does first with a rule in use, and `acl_del_filter`
does: its cell and its entry are deleted. -/
def aclRemoveFilter (acl : FrcoreAcl) (index : Nat) : Fre × FrcoreAcl :=
  match aclGetHashTable (acl.entry index).aclType (acl.entry index).hash with
  | none => (.fail, acl)
  | some slot =>
      match aclDeleteOneFilterFromHashTable index (acl.aclHashTable slot) with
      | none => (.fail, acl)
      | some bucket =>
          (.success, aclDeleteOneFilter { acl with
            aclHashTable := Function.update acl.aclHashTable slot bucket }
            index)

/-- `acl_set_filter`; `crc` is `acl_hash_crc`. -/
def aclSetFilter (crc : Nat → Nat → Fin frcoreMaxFilters) (allocOk : Bool)
    (acl : FrcoreAcl) (index : Nat) (args : FilterArgs) : Fre × FrcoreAcl :=
  if index < aclIndexStart ∨ aclMax < index then (.param, acl)
  else if args.aclType < frcAclSip ∨ frcAclDp < args.aclType then
    (.param, acl)
  else
    let removed :=
      if (acl.entry index).enable ≠ 0 then aclRemoveFilter acl index
      else (.success, acl)
    if removed.1 ≠ .success then removed
    else
      let hash := (crc args.oneTuple args.proto).val
      match aclGetHashTable args.aclType hash with
      | none => (.fail, removed.2)
      | some _ =>
          aclAddOneFilterToHashTable allocOk
            (aclAddOneFilter removed.2 index args hash) index

/-- `acl_del_filter`. -/
def aclDelFilter (acl : FrcoreAcl) (index : Nat) : Fre × FrcoreAcl :=
  if index < aclIndexStart ∨ aclMax < index then (.param, acl)
  else if (acl.entry index).enable = 0 then (.init, acl)
  else aclRemoveFilter acl index

end Barley
