/-
The addresses that are filtered alone, by source or by destination.  Each side
has a table of small buckets, and a tag remembers the address that it was last
given to.
-/
import Barley.MachineWords
import Barley.SlotBucket

namespace Barley

/-- `MAX_ACL_IP_NUM`. -/
def maxAclIpNum : Nat := 64

/-- `MAX_ACL_IP_HASH_BUCKET_LEN`. -/
def maxAclIpHashBucketLen : Nat := 4

/-- `MPP_ACL_IP_START`. -/
def mppAclIpStart : Nat := 2048

/-- The two tables. -/
inductive IpSide where
  | src
  | dest
deriving DecidableEq, Repr

/-- `FLAG_SRC_IP` and `FLAG_DEST_IP`. -/
def IpSide.flag : IpSide → Nat
  | .src => 1
  | .dest => 2

/-- `mpp_aclip_hash`: a slot, vacant when its address is zero. -/
structure MppAclipHash where
  ip : Nat
  tag : Nat
deriving DecidableEq, Repr

/-- `mpp_acl_ip`, with `src_cnt` and `dest_cnt` in `cnt`, and `srcip` and
`destip` in `iphash`. -/
structure MppAclIp where
  cnt : IpSide → Nat → Nat
  iphash : IpSide → Nat → Nat → MppAclipHash
  tagip : Nat → Nat
  ipflag : Nat → Nat

namespace MppAclIp

/-- `acl_init_one_ipbucket` for every bucket. -/
def init : MppAclIp where
  cnt := fun _ _ => 0
  iphash := fun _ _ _ => ⟨0, 0⟩
  tagip := fun _ => 0
  ipflag := fun _ => 0

/-- The addresses in a bucket. -/
def ips (acl : MppAclIp) (side : IpSide) (index i : Nat) : Nat :=
  (acl.iphash side index i).ip

/-- What insertion and deletion write: a slot, the counter of its bucket, and
the address and the flag of a tag. -/
def write (acl : MppAclIp) (side : IpSide) (index i : Nat)
    (entry : MppAclipHash) (cnt tagid flag : Nat) : MppAclIp where
  cnt := Function.update acl.cnt side
    (Function.update (acl.cnt side) index cnt)
  iphash := Function.update acl.iphash side
    (Function.update (acl.iphash side) index
      (Function.update (acl.iphash side index) i entry))
  tagip := Function.update acl.tagip tagid entry.ip
  ipflag := Function.update acl.ipflag tagid flag

end MppAclIp

section Calls

variable (side : IpSide) (crc : Nat → Fin maxAclIpNum) (acl : MppAclIp)

/-- The search for an address, which gives its tag. -/
def mppCmpIp (ip : Nat) : Option Nat :=
  (SlotBucket.lookup maxAclIpHashBucketLen (acl.ips side (crc ip)) ip).map
    fun i => (acl.iphash side (crc ip) i).tag

/-- An address is written into a slot; `none` when the tag is outside `tagip`
and `ipflag`. -/
def insertAt (tagid ip i : Nat) : Option (Int × MppAclIp) :=
  if tagid < maxAclIpNum then
    some (0, acl.write side (crc ip) i ⟨ip, tagid + mppAclIpStart⟩
      (inc32 (acl.cnt side (crc ip))) tagid side.flag)
  else none

/-- The insertion of an address.  In a full bucket the counter says which slot
is overwritten. -/
def mppInsertIp (tagid ip : Nat) : Option (Int × MppAclIp) :=
  match SlotBucket.firstFit 0 maxAclIpHashBucketLen
      (acl.ips side (crc ip)) ip with
  | some i =>
      if acl.ips side (crc ip) i = 0 then insertAt side crc acl tagid ip i
      else some (-1, acl)
  | none =>
      insertAt side crc acl tagid ip
        (acl.cnt side (crc ip) % maxAclIpHashBucketLen)

/-- The deletion of an address. -/
def mppDelSideIp (tagid ip : Nat) : MppAclIp :=
  match SlotBucket.lookup maxAclIpHashBucketLen
      (acl.ips side (crc ip)) ip with
  | some i =>
      acl.write side (crc ip) i ⟨0, 0⟩ (dec32 (acl.cnt side (crc ip))) tagid 0
  | none => acl

end Calls

/-- `mpp_cmp_src_ip`. -/
def mppCmpSrcIp := mppCmpIp .src

/-- `mpp_cmp_dest_ip`. -/
def mppCmpDestIp := mppCmpIp .dest

/-- `mpp_insert_src_ip`. -/
def mppInsertSrcIp := mppInsertIp .src

/-- `mpp_insert_dest_ip`. -/
def mppInsertDestIp := mppInsertIp .dest

/-- `mpp_del_src_ip`. -/
def mppDelSrcIp := mppDelSideIp .src

/-- `mpp_del_dest_ip`. -/
def mppDelDestIp := mppDelSideIp .dest

/-- `mpp_del_ip`. -/
def mppDelIp (crc : Nat → Fin maxAclIpNum) (acl : MppAclIp) (tagid : Nat) :
    MppAclIp :=
  if maxAclIpNum ≤ tagid then acl
  else if acl.tagip tagid = 0 then acl
  else if acl.ipflag tagid = IpSide.flag .src then
    mppDelSrcIp crc acl tagid (acl.tagip tagid)
  else if acl.ipflag tagid = IpSide.flag .dest then
    mppDelDestIp crc acl tagid (acl.tagip tagid)
  else acl

/-- A call that changes the tables. -/
inductive IpCall where
  | insert (side : IpSide) (tagid ip : Nat)
  | del (tagid : Nat)

/-- The addresses and the tags of the calls are not zero. -/
def IpCall.NonZero : IpCall → Prop
  | .insert _ tagid ip => tagid ≠ 0 ∧ ip ≠ 0
  | .del tagid => tagid ≠ 0

/-- The tables with what the calls so far say of them: the tag with which each
address was last inserted, unless its tag was deleted or it was evicted. -/
structure IpHistory where
  acl : MppAclIp
  known : IpSide → Nat → Option Nat

namespace IpHistory

variable (crc : Nat → Fin maxAclIpNum) (history : IpHistory)

def init : IpHistory := ⟨.init, fun _ _ => none⟩

/-- The address that an insertion overwrites, zero if there is none. -/
def victim (side : IpSide) (ip : Nat) : Nat :=
  history.acl.ips side (crc ip)
    ((SlotBucket.firstFit 0 maxAclIpHashBucketLen
      (history.acl.ips side (crc ip)) ip).getD
        (history.acl.cnt side (crc ip) % maxAclIpHashBucketLen))

/-- After a successful insertion. -/
def noteInsert (side : IpSide) (tagid ip : Nat) : IpSide → Nat → Option Nat :=
  Function.update history.known side
    (Function.update
      (Function.update (history.known side) (history.victim crc side ip) none)
      ip (some tagid))

/-- After a deletion: every address with the tag is gone. -/
def noteDel (tagid : Nat) (side : IpSide) (ip : Nat) : Option Nat :=
  if history.known side ip = some tagid then none else history.known side ip

/-- A call with its entry in the history. -/
def step : IpCall → Option IpHistory
  | .insert side tagid ip =>
      (mppInsertIp side crc history.acl tagid ip).map fun result =>
        if result.1 = 0 then
          ⟨result.2, history.noteInsert crc side tagid ip⟩
        else ⟨result.2, history.known⟩
  | .del tagid =>
      some ⟨mppDelIp crc history.acl tagid, history.noteDel tagid⟩

end IpHistory

end Barley
