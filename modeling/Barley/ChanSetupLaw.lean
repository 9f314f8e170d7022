/-
The channels as the driver leaves them.  When the kernel gives all pages, every
available ring is full of blocks, no two blocks of any channels overlap, and
the host finds every block inside the pages that it maps.
-/
import Barley.ChanSetup

namespace Barley

/-- Pages that lie apart from each other and below the end of the address
space. -/
structure PagesApart (alloc : Nat → Option Nat) : Prop where
  apart : ∀ i j first second, i ≠ j → alloc i = some first →
    alloc j = some second →
      first + frcDmaPoolSize ≤ second ∨ second + frcDmaPoolSize ≤ first
  below : ∀ i addr, alloc i = some addr → addr + frcDmaPoolSize < 2 ^ 64

namespace Spaces

/-- Spaces of a size that have no place in common. -/
def Apart (size : Nat) (addrs : List Nat) : Prop :=
  addrs.Pairwise fun first second =>
    first + size ≤ second ∨ second + size ≤ first

/-- The parts of a space. -/
def cut (size count addr : Nat) : List Nat :=
  (List.range count).map fun i => addr + i * size

theorem mem_cut {size count addr part : Nat}
    (h : part ∈ cut size count addr) :
    addr ≤ part ∧ part + size ≤ addr + count * size := by
  obtain ⟨i, hi, rfl⟩ := List.mem_map.mp h
  have hle : (i + 1) * size ≤ count * size :=
    Nat.mul_le_mul_right size (List.mem_range.mp hi)
  rw [Nat.succ_mul] at hle
  omega

theorem apart_cut (size count addr : Nat) :
    Apart size (cut size count addr) := by
  rw [Apart, cut, List.pairwise_map]
  refine List.pairwise_lt_range.imp fun {i j} hlt => .inl ?_
  have hle : (i + 1) * size ≤ j * size := Nat.mul_le_mul_right size hlt
  rw [Nat.succ_mul] at hle
  omega

/-- Spaces of two sizes that have no place in common. -/
def Clear (size size' : Nat) (addrs addrs' : List Nat) : Prop :=
  ∀ addr ∈ addrs, ∀ addr' ∈ addrs',
    addr + size ≤ addr' ∨ addr' + size' ≤ addr

/-- Parts of spaces that lie apart lie apart. -/
theorem Apart.cut {size count : Nat} {addrs : List Nat}
    (h : Apart (count * size) addrs) :
    Apart size (addrs.flatMap (cut size count)) := by
  refine List.pairwise_flatMap.mpr ⟨fun addr _ => apart_cut size count addr, ?_⟩
  refine h.imp fun {first second} hapart part hpart other hother => ?_
  have hfirst := mem_cut hpart
  have hsecond := mem_cut hother
  omega

end Spaces

section Pools

variable {alloc : Nat → Option Nat} {used count : Nat}

theorem length_allocPools_le : (allocPools alloc used count).length ≤ count := by
  induction count generalizing used with
  | zero => exact Nat.le_refl 0
  | succ count ih =>
      rw [allocPools]
      split
      · exact Nat.zero_le _
      · exact Nat.succ_le_succ ih

/-- All calls succeed, or one of them fails. -/
theorem length_allocPools_eq_iff :
    (allocPools alloc used count).length = count ↔
      ∀ i < count, alloc (used + i) ≠ none := by
  induction count generalizing used with
  | zero => exact iff_of_true rfl fun i hi => absurd hi (Nat.not_lt_zero i)
  | succ count ih =>
      rw [allocPools]
      cases hcall : alloc used with
      | none =>
          refine iff_of_false (Ne.symm (Nat.succ_ne_zero count)) fun h => ?_
          exact h 0 (Nat.succ_pos count) hcall
      | some addr =>
          simp only [List.length_cons, Nat.succ_inj, ih]
          constructor
          · intro h i hi
            cases i with
            | zero => simp [hcall]
            | succ i =>
                rw [Nat.add_comm i 1, ← Nat.add_assoc]
                exact h i (Nat.lt_of_succ_lt_succ hi)
          · intro h i hi
            rw [Nat.add_assoc, Nat.add_comm 1 i]
            exact h (i + 1) (Nat.succ_lt_succ hi)

theorem getElem?_allocPools {i addr : Nat}
    (h : (allocPools alloc used count)[i]? = some addr) :
    alloc (used + i) = some addr := by
  induction count generalizing used i with
  | zero => cases h
  | succ count ih =>
      rw [allocPools] at h
      cases hcall : alloc used with
      | none =>
          rw [hcall] at h
          cases h
      | some first =>
          rw [hcall] at h
          cases i with
          | zero => exact hcall.trans h
          | succ i =>
              have hrest := ih h
              rw [Nat.add_assoc, Nat.add_comm 1 i] at hrest
              exact hrest

theorem mem_allocPools {addr : Nat} (h : addr ∈ allocPools alloc used count) :
    ∃ i < count, alloc (used + i) = some addr := by
  obtain ⟨i, hi, hget⟩ := List.getElem_of_mem h
  refine ⟨i, Nat.lt_of_lt_of_le hi length_allocPools_le, ?_⟩
  exact getElem?_allocPools (List.getElem?_eq_some_iff.mpr ⟨hi, hget⟩)

theorem PagesApart.apart_allocPools (h : PagesApart alloc) :
    Spaces.Apart frcDmaPoolSize (allocPools alloc used count) := by
  refine List.pairwise_iff_getElem.mpr fun i j hi hj hlt => ?_
  refine h.apart (used + i) (used + j) _ _ (by omega) ?_ ?_
  · exact getElem?_allocPools (List.getElem?_eq_getElem hi)
  · exact getElem?_allocPools (List.getElem?_eq_getElem hj)

end Pools

section Bounds

/-- What is picked again and again is one of the items, and stands in the
relation to all of them. -/
theorem foldl_pick {A : Type} {r : A → A → Prop} {p : A → A → A}
    (hrefl : ∀ a, r a a) (htrans : ∀ a b c, r a b → r b c → r a c)
    (hleft : ∀ a b, r (p a b) a) (hright : ∀ a b, r (p a b) b)
    (hone : ∀ a b, p a b = a ∨ p a b = b) (items : List A) (start : A) :
    items.foldl p start ∈ start :: items ∧
      ∀ item ∈ start :: items, r (items.foldl p start) item := by
  induction items generalizing start with
  | nil =>
      refine ⟨List.mem_cons_self, fun item hitem => ?_⟩
      rw [List.mem_singleton.mp hitem]
      exact hrefl start
  | cons first rest ih =>
      obtain ⟨hmem, hall⟩ := ih (p start first)
      have hpicked := hall _ List.mem_cons_self
      rw [List.foldl_cons]
      refine ⟨?_, fun item hitem => ?_⟩
      · rcases List.mem_cons.mp hmem with heq | hrest
        · rw [heq]
          rcases hone start first with hsame | hsame
          · rw [hsame]
            exact List.mem_cons_self
          · rw [hsame]
            exact List.mem_cons_of_mem _ List.mem_cons_self
        · exact List.mem_cons_of_mem _ (List.mem_cons_of_mem _ hrest)
      · rcases List.mem_cons.mp hitem with rfl | hlater
        · exact htrans _ _ _ hpicked (hleft item first)
        · rcases List.mem_cons.mp hlater with rfl | hrest
          · exact htrans _ _ _ hpicked (hright start item)
          · exact hall item (List.mem_cons_of_mem _ hrest)

variable {pool : List Nat}

theorem headD_cons_tail (hpool : pool ≠ []) :
    pool.headD 0 :: pool.tail = pool := by
  cases pool with
  | nil => exact absurd rfl hpool
  | cons first rest => rfl

theorem addrMin_spec (hpool : pool ≠ []) :
    addrMin pool ∈ pool ∧ ∀ addr ∈ pool, addrMin pool ≤ addr := by
  have hpick := foldl_pick (r := fun a b : Nat => a ≤ b)
    (p := fun least addr => if addr < least then addr else least)
    Nat.le_refl (fun _ _ _ => Nat.le_trans) ?_ ?_ ?_ pool.tail
    (pool.headD 0)
  · rw [headD_cons_tail hpool] at hpick
    exact hpick
  · intro a b
    split <;> omega
  · intro a b
    split <;> omega
  · intro a b
    split
    · exact .inr rfl
    · exact .inl rfl

theorem addrMax_spec (hpool : pool ≠ []) :
    addrMax pool ∈ pool ∧ ∀ addr ∈ pool, addr ≤ addrMax pool := by
  have hpick := foldl_pick (r := fun a b : Nat => b ≤ a)
    (p := fun most addr => if most < addr then addr else most)
    Nat.le_refl (fun _ _ _ h h' => Nat.le_trans h' h) ?_ ?_ ?_ pool.tail
    (pool.headD 0)
  · rw [headD_cons_tail hpool] at hpick
    exact hpick
  · intro a b
    split <;> omega
  · intro a b
    split <;> omega
  · intro a b
    split
    · exact .inr rfl
    · exact .inl rfl

end Bounds

section Filling

/-- A ring that nothing has been taken from, and what it holds. -/
structure RingFilled (size : Nat) (ring : RingBuff) (blocks : List Nat) :
    Prop where
  ridx : ring.ridx = 0
  widx : ring.widx = blocks.length
  holds : Ring.window size ring.buff 0 blocks.length = blocks

variable {size : Nat} {ring : RingBuff} {blocks : List Nat}

theorem RingFilled.zero : RingFilled size .zero [] :=
  ⟨rfl, rfl, rfl⟩

/-- A filled ring is the start of a channel. -/
theorem RingFilled.log (h : RingFilled frcSimpleRingBuffSize ring blocks) :
    RingLog ring blocks [] where
  ridx := h.ridx
  widx := h.widx
  le := Nat.zero_le _
  log := h.holds.symm

theorem RingFilled.put (h : RingFilled size ring blocks) (addr : Nat)
    (hroom : blocks.length < size) (hsize : size < 2 ^ 64) :
    ∃ next, blockRingPut size ring addr = some next ∧
      RingFilled size next (blocks ++ [addr]) := by
  have hused : sub64 ring.widx ring.ridx = blocks.length := by
    rw [h.ridx, h.widx, sub64_eq (Nat.zero_le _) (by omega), Nat.sub_zero]
  have hwrites : Ring.Writes size (0 + blocks.length) 1 ring.buff
      (Function.update ring.buff (ring.widx % size) addr) := by
    intro slot hslot
    have hne := hslot 0 Nat.one_pos
    rw [Nat.add_zero, Nat.zero_add, ← h.widx] at hne
    exact Function.update_of_ne hne _ _
  have hcheck : ring.ridx ≤ ring.widx ∧ sub64 ring.widx ring.ridx < size := by
    rw [hused, h.ridx]
    exact ⟨Nat.zero_le _, hroom⟩
  refine ⟨_, if_pos hcheck, h.ridx, ?_, ?_⟩
  · rw [List.length_append, List.length_singleton, ← h.widx]
    apply add64_eq
    rw [h.widx]
    omega
  · rw [List.length_append, List.length_singleton, Ring.window_append,
      hwrites.window_eq (Nat.le_refl _) (by omega), h.holds, Ring.window_one,
      Nat.zero_add, ← h.widx]
    simp only [Function.update_self]

/-- Blocks are put as long as there is room. -/
theorem RingFilled.putBlocks (h : RingFilled size ring blocks)
    (more : List Nat) (hroom : blocks.length + more.length ≤ size)
    (hsize : size < 2 ^ 64) :
    ∃ filled, putBlocks size ring more = (true, filled) ∧
      RingFilled size filled (blocks ++ more) := by
  induction more generalizing ring blocks with
  | nil =>
      rw [List.append_nil]
      exact ⟨ring, rfl, h⟩
  | cons addr rest ih =>
      rw [List.length_cons] at hroom
      obtain ⟨next, hput, hnext⟩ := h.put addr (by omega) hsize
      obtain ⟨filled, hrest, hfilled⟩ := ih hnext (by
        rw [List.length_append, List.length_singleton]
        omega)
      refine ⟨filled, ?_, ?_⟩
      · rw [Barley.putBlocks, hput]
        exact hrest
      · rw [List.append_assoc, List.singleton_append] at hfilled
        exact hfilled

end Filling

/-- The pools of a channel, cut into blocks, fit into its ring. -/
structure ChanKind.Lawful (kind : ChanKind) : Prop where
  capacity : kind.poolNumMax * (frcDmaPoolSize / kind.blockSize) =
    kind.ringSize
  ringSize_lt : kind.ringSize < 2 ^ 64
  divides : frcDmaPoolSize / kind.blockSize * kind.blockSize = frcDmaPoolSize
  ringPools_pos : 0 < kind.ringPools
  blockSize_pos : 0 < kind.blockSize

theorem ChanKind.simplePackage_lawful : ChanKind.simplePackage.Lawful :=
  ⟨by decide, by decide, by decide, by decide, by decide⟩

theorem ChanKind.ssn_lawful : ChanKind.ssn.Lawful :=
  ⟨by decide, by decide, by decide, by decide, by decide⟩

section Blocks

variable {kind : ChanKind} {pool : List Nat}

theorem ChanKind.length_blocks :
    (kind.blocks pool).length =
      pool.length * (frcDmaPoolSize / kind.blockSize) := by
  rw [ChanKind.blocks, List.length_flatMap]
  simp only [List.length_map, List.length_range, List.map_const',
    List.sum_replicate_nat]

/-- No address of a block runs over. -/
theorem ChanKind.Lawful.blocks_eq (h : kind.Lawful)
    (hbelow : ∀ addr ∈ pool, addr + frcDmaPoolSize < 2 ^ 64) :
    kind.blocks pool = pool.flatMap
      (Spaces.cut kind.blockSize (frcDmaPoolSize / kind.blockSize)) := by
  have hdivides := h.divides
  have hpos := h.blockSize_pos
  rw [ChanKind.blocks]
  refine List.flatMap_congr fun addr haddr => ?_
  refine List.map_congr_left fun i hi => ?_
  have hend := hbelow addr haddr
  have hlt : (i + 1) * kind.blockSize ≤
      frcDmaPoolSize / kind.blockSize * kind.blockSize :=
    Nat.mul_le_mul_right _ (List.mem_range.mp hi)
  rw [Nat.succ_mul] at hlt
  exact add64_eq (by omega)

end Blocks

/-- A channel with its pool and with its ring full of the blocks. -/
structure ChanReady (kind : ChanKind) (pool : List Nat) (chan : FrcDmaChan)
    (ring : RingBuff) : Prop where
  hasPool : chan.pool = some pool
  poolAddr : chan.poolAddr = addrMin pool
  poolSize : chan.poolSize =
    add64 (sub64 (addrMax pool) (addrMin pool)) frcDmaPoolSize
  avail : chan.avail = some ring
  filled : RingFilled kind.ringSize ring (kind.blocks pool)

/-- How many pages a channel takes. -/
def ChanKind.pages (kind : ChanKind) (poolNum : Nat) : Nat :=
  1 + poolNum + kind.ringPools

section Setup

variable {kind : ChanKind} {alloc : Nat → Option Nat} {used poolNum : Nat}

theorem chanPoolInit_success
    (hall : ∀ i < 1 + poolNum, alloc (used + i) ≠ none) (chan : FrcDmaChan) :
    (allocPools alloc (used + 1) poolNum).length = poolNum ∧
      chanPoolInit alloc used chan poolNum =
        (.success, used + 1 + poolNum,
          { chan with
            pool := some (allocPools alloc (used + 1) poolNum)
            poolAddr := addrMin (allocPools alloc (used + 1) poolNum)
            poolSize := add64
              (sub64 (addrMax (allocPools alloc (used + 1) poolNum))
                (addrMin (allocPools alloc (used + 1) poolNum)))
              frcDmaPoolSize }) := by
  have hlen : (allocPools alloc (used + 1) poolNum).length = poolNum := by
    apply length_allocPools_eq_iff.mpr
    intro i hi
    rw [Nat.add_assoc]
    exact hall (1 + i) (by omega)
  obtain ⟨first, hfirst⟩ :=
    Option.ne_none_iff_exists'.mp (hall 0 (by omega))
  rw [Nat.add_zero] at hfirst
  refine ⟨hlen, ?_⟩
  rw [chanPoolInit, hfirst]
  simp only [hlen, Nat.lt_irrefl, if_false, Nat.sub_self, List.replicate_zero,
    List.append_nil]

/-- A channel is set up when the kernel gives all its pages. -/
theorem chanSetup_success (hlawful : kind.Lawful)
    (hnum : poolNum ≤ kind.poolNumMax)
    (hall : ∀ i < kind.pages poolNum, alloc (used + i) ≠ none) (type : Nat) :
    ∃ chan ring, chanSetup kind alloc used .zero type poolNum =
        (.success, used + kind.pages poolNum, chan) ∧
      ChanReady kind (allocPools alloc (used + 1) poolNum) chan ring := by
  simp only [ChanKind.pages] at hall
  obtain ⟨hlen, hpool⟩ := chanPoolInit_success
    (fun i (hi : i < 1 + poolNum) => hall i (by omega)) FrcDmaChan.zero
  have hrings : (allocPools alloc (used + 1 + poolNum) kind.ringPools).length =
      kind.ringPools := by
    apply length_allocPools_eq_iff.mpr
    intro i hi
    have hpage := hall (1 + poolNum + i) (by omega)
    rw [← Nat.add_assoc, ← Nat.add_assoc] at hpage
    exact hpage
  have hsome : allocPools alloc (used + 1 + poolNum) kind.ringPools ≠ [] := by
    have hpos := hlawful.ringPools_pos
    apply List.ne_nil_of_length_pos
    omega
  generalize allocPools alloc (used + 1) poolNum = pool at hlen hpool ⊢
  have hroom : (kind.blocks pool).length ≤ kind.ringSize := by
    rw [ChanKind.length_blocks, hlen, ← hlawful.capacity]
    exact Nat.mul_le_mul_right _ hnum
  obtain ⟨ring, hput, hfilled⟩ := RingFilled.zero.putBlocks
    (kind.blocks pool)
    (by rw [List.length_nil, Nat.zero_add]; exact hroom) hlawful.ringSize_lt
  rw [List.nil_append] at hfilled
  refine ⟨{ type := type, pool := some pool, avail := some ring
            ringAddr := allocPools alloc (used + 1 + poolNum) kind.ringPools
            poolAddr := addrMin pool
            poolSize := add64 (sub64 (addrMax pool) (addrMin pool))
              frcDmaPoolSize },
    ring, ?_, ⟨rfl, rfl, rfl, rfl, hfilled⟩⟩
  have hused : used + kind.pages poolNum =
      used + 1 + poolNum + kind.ringPools := by
    simp only [ChanKind.pages]
    omega
  rw [chanSetup, if_neg (Nat.not_lt.mpr hnum), hpool, hused]
  simp only [chanDmaCtrlInit, hrings, Nat.lt_irrefl, if_false, hsome,
    chanAvailInitOf, Option.getD_some, hput]

variable {used' : Nat} {chan chan' : FrcDmaChan}

theorem chanPoolInit_pages
    (h : chanPoolInit alloc used chan poolNum = (.success, used', chan')) :
    used' = used + 1 + poolNum ∧ ∀ i < 1 + poolNum, alloc (used + i) ≠ none := by
  unfold chanPoolInit at h
  cases hfirst : alloc used with
  | none =>
      rw [hfirst] at h
      cases h
  | some first =>
      simp only [hfirst] at h
      split at h
      · cases h
      · rename_i hmore
        have hpools := length_allocPools_eq_iff.mp
          (Nat.le_antisymm length_allocPools_le (Nat.not_lt.mp hmore))
        cases h
        refine ⟨rfl, fun i hi => ?_⟩
        cases i with
        | zero => simp [hfirst]
        | succ i =>
            rw [Nat.add_comm i 1, ← Nat.add_assoc]
            exact hpools i (by omega)

theorem chanDmaCtrlInit_pages
    (h : chanDmaCtrlInit kind alloc used chan = (.success, used', chan')) :
    ∀ i < kind.ringPools, alloc (used + i) ≠ none := by
  unfold chanDmaCtrlInit at h
  split at h
  · cases h
  · simp only at h
    split at h
    · cases h
    · rename_i hmore
      exact length_allocPools_eq_iff.mp
        (Nat.le_antisymm length_allocPools_le (Nat.not_lt.mp hmore))

/-- A channel that is set up has got all its pages. -/
theorem chanSetup_pages {type : Nat}
    (h : chanSetup kind alloc used chan type poolNum =
      (.success, used', chan')) :
    ∀ i < kind.pages poolNum, alloc (used + i) ≠ none := by
  unfold chanSetup at h
  split at h
  · cases h
  · split at h
    · rename_i hpool
      obtain ⟨rfl, hfirst⟩ := chanPoolInit_pages hpool
      split at h
      · rename_i hctrl
        have hrings := chanDmaCtrlInit_pages hctrl
        intro i hi
        simp only [ChanKind.pages] at hi
        rcases Nat.lt_or_ge i (1 + poolNum) with hlt | hge
        · exact hfirst i hlt
        · have hring := hrings (i - (1 + poolNum)) (by omega)
          rw [show used + 1 + poolNum + (i - (1 + poolNum)) = used + i by
            omega] at hring
          exact hring
      · cases h
    · cases h

/-- What a setup that succeeds has done. -/
theorem chanSetup_ready (hlawful : kind.Lawful)
    (hnum : poolNum ≤ kind.poolNumMax) {type : Nat}
    (h : chanSetup kind alloc used .zero type poolNum =
      (.success, used', chan)) :
    used' = used + kind.pages poolNum ∧
      (allocPools alloc (used + 1) poolNum).length = poolNum ∧
      ∃ ring, ChanReady kind (allocPools alloc (used + 1) poolNum) chan
        ring := by
  have hall := chanSetup_pages h
  obtain ⟨ready, ring, hsetup, hready⟩ :=
    chanSetup_success hlawful hnum hall type
  rw [h, Prod.mk.injEq, Prod.mk.injEq] at hsetup
  obtain ⟨-, hused, rfl⟩ := hsetup
  refine ⟨hused, ?_, ring, hready⟩
  apply length_allocPools_eq_iff.mpr
  intro i hi
  rw [Nat.add_assoc]
  simp only [ChanKind.pages] at hall
  exact hall (1 + i) (by omega)

end Setup

/-- The pages that all channels take. -/
def chanPages : Nat :=
  ChanKind.simplePackage.pages ChanKind.simplePackage.poolNumMax +
    ChanKind.simplePackage.pages ChanKind.simplePackage.poolNumMax +
    ChanKind.ssn.pages ChanKind.ssn.poolNumMax

/-- The host finds the block behind the begin of the pages that it has mapped,
and the whole block lies inside of them. -/
def FrcDmaChan.Mapped (chan : FrcDmaChan) (blockSize blockAddr : Nat) : Prop :=
  ∃ offset, blockAddr = chan.poolAddr + offset ∧
    offset + blockSize ≤ chan.poolSize ∧
    ∀ appAddr, prPktGet chan appAddr blockAddr = some (appAddr + offset)

/-- Every block of a channel is in the pages that the host maps. -/
theorem ChanReady.mapped {kind : ChanKind} {pool : List Nat}
    {chan : FrcDmaChan} {ring : RingBuff} (h : ChanReady kind pool chan ring)
    (hlawful : kind.Lawful)
    (hbelow : ∀ addr ∈ pool, addr + frcDmaPoolSize < 2 ^ 64)
    {block : Nat} (hblock : block ∈ kind.blocks pool) :
    chan.Mapped kind.blockSize block := by
  rw [hlawful.blocks_eq hbelow] at hblock
  obtain ⟨addr, haddr, hcut⟩ := List.mem_flatMap.mp hblock
  have hpool : pool ≠ [] := List.ne_nil_of_mem haddr
  obtain ⟨hminMem, hmin⟩ := addrMin_spec hpool
  obtain ⟨hmaxMem, hmax⟩ := addrMax_spec hpool
  have hinside := Spaces.mem_cut hcut
  rw [hlawful.divides] at hinside
  have hle := hmin addr haddr
  have hge := hmax addr haddr
  have htop := hbelow _ hmaxMem
  have hpos := hlawful.blockSize_pos
  have hpoolSize : chan.poolSize =
      addrMax pool - addrMin pool + frcDmaPoolSize := by
    rw [h.poolSize, sub64_eq (by omega) (by omega), add64_eq (by omega)]
  have hoffset : sub64 block chan.poolAddr = block - addrMin pool := by
    rw [h.poolAddr]
    exact sub64_eq (by omega) (by omega)
  refine ⟨block - addrMin pool, ?_, ?_, fun appAddr => ?_⟩
  · rw [h.poolAddr]
    omega
  · rw [hpoolSize]
    omega
  · rw [prPktGet, hoffset, hpoolSize]
    exact if_neg (by omega)

/-- A channel that is ready for the cores and the host: its ring is full, and
its blocks lie apart from each other inside the pages that the host maps. -/
structure FrcDmaChan.Full (kind : ChanKind) (blocks : List Nat)
    (chan : FrcDmaChan) : Prop where
  filled : ∃ ring, chan.avail = some ring ∧
    RingFilled kind.ringSize ring blocks
  full : blocks.length = kind.ringSize
  apart : Spaces.Apart kind.blockSize blocks
  mapped : ∀ block ∈ blocks, chan.Mapped kind.blockSize block

section Pages

variable {alloc : Nat → Option Nat} {used used' count count' : Nat}

theorem PagesApart.below_allocPools (h : PagesApart alloc) :
    ∀ addr ∈ allocPools alloc used count, addr + frcDmaPoolSize < 2 ^ 64 := by
  intro addr haddr
  obtain ⟨i, -, hcall⟩ := mem_allocPools haddr
  exact h.below (used + i) addr hcall

/-- Pages of later calls lie apart from those of earlier ones. -/
theorem PagesApart.clear (h : PagesApart alloc) (hlater : used + count ≤ used') :
    Spaces.Clear frcDmaPoolSize frcDmaPoolSize
      (allocPools alloc used count) (allocPools alloc used' count') := by
  intro addr haddr addr' haddr'
  obtain ⟨i, hi, hcall⟩ := mem_allocPools haddr
  obtain ⟨i', -, hcall'⟩ := mem_allocPools haddr'
  exact h.apart (used + i) (used' + i') addr addr' (by omega) hcall hcall'

/-- The blocks of two channels lie apart. -/
theorem PagesApart.clear_blocks (h : PagesApart alloc) {kind kind' : ChanKind}
    (hlawful : kind.Lawful) (hlawful' : kind'.Lawful)
    (hlater : used + count ≤ used') :
    Spaces.Clear kind.blockSize kind'.blockSize
      (kind.blocks (allocPools alloc used count))
      (kind'.blocks (allocPools alloc used' count')) := by
  rw [hlawful.blocks_eq h.below_allocPools, hlawful'.blocks_eq
    h.below_allocPools]
  intro block hblock block' hblock'
  obtain ⟨addr, haddr, hcut⟩ := List.mem_flatMap.mp hblock
  obtain ⟨addr', haddr', hcut'⟩ := List.mem_flatMap.mp hblock'
  have hinside := Spaces.mem_cut hcut
  have hinside' := Spaces.mem_cut hcut'
  rw [hlawful.divides] at hinside
  rw [hlawful'.divides] at hinside'
  have hclear := h.clear hlater addr haddr addr' haddr'
  omega

theorem PagesApart.full (h : PagesApart alloc) {kind : ChanKind}
    (hlawful : kind.Lawful)
    (hlength : (allocPools alloc used kind.poolNumMax).length =
      kind.poolNumMax) {chan : FrcDmaChan} {ring : RingBuff}
    (hready : ChanReady kind (allocPools alloc used kind.poolNumMax) chan
      ring) :
    chan.Full kind
      (kind.blocks (allocPools alloc used kind.poolNumMax)) where
  filled := ⟨ring, hready.avail, hready.filled⟩
  full := by
    rw [ChanKind.length_blocks, hlength]
    exact hlawful.capacity
  apart := by
    have hapart : Spaces.Apart frcDmaPoolSize
        (allocPools alloc used kind.poolNumMax) := h.apart_allocPools
    rw [← hlawful.divides] at hapart
    rw [hlawful.blocks_eq h.below_allocPools]
    exact hapart.cut
  mapped := fun block hblock =>
    hready.mapped hlawful h.below_allocPools hblock

end Pages

/-- The setups one after the other. -/
theorem frcdrvChansInit_setups {alloc : Nat → Option Nat} {chans : FrcdrvChans} :
    frcdrvChansInit alloc = some chans ↔ ∃ used used' used'',
      chanSetup .simplePackage alloc 0 .zero 0
          ChanKind.simplePackage.poolNumMax = (.success, used, chans.udp) ∧
        chanSetup .simplePackage alloc used .zero 1
          ChanKind.simplePackage.poolNumMax = (.success, used', chans.rule) ∧
        chanSetup .ssn alloc used' .zero 2 ChanKind.ssn.poolNumMax =
          (.success, used'', chans.ssn) := by
  constructor
  · intro h
    unfold frcdrvChansInit at h
    split at h
    · rename_i used udp hudp
      split at h
      · rename_i used' rule hrule
        split at h
        · rename_i used'' ssn hssn
          cases h
          exact ⟨used, used', used'', hudp, hrule, hssn⟩
        · cases h
      · cases h
    · cases h
  · rintro ⟨used, used', used'', hudp, hrule, hssn⟩
    rw [frcdrvChansInit, hudp]
    simp only [hrule, hssn]

/-- The pages of the three channels. -/
theorem forall_chanPages_iff {alloc : Nat → Option Nat} {first last : Nat} :
    (∀ i < first + first + last, alloc i ≠ none) ↔
      (∀ i < first, alloc (0 + i) ≠ none) ∧
        (∀ i < first, alloc (first + i) ≠ none) ∧
        ∀ i < last, alloc (first + first + i) ≠ none := by
  constructor
  · intro h
    refine ⟨fun i hi => h _ ?_, fun i hi => h _ ?_, fun i hi => h _ ?_⟩
    · omega
    · omega
    · omega
  · rintro ⟨hudp, hrule, hssn⟩ i hi
    rcases Nat.lt_or_ge i first with hlt | hge
    · rw [← Nat.zero_add i]
      exact hudp i hlt
    · rcases Nat.lt_or_ge i (first + first) with hlt' | hge'
      · rw [← Nat.add_sub_cancel' hge]
        exact hrule _ (by omega)
      · rw [← Nat.add_sub_cancel' hge']
        exact hssn _ (by omega)

theorem frcdrvChansInit_isSome_iff {alloc : Nat → Option Nat} :
    (frcdrvChansInit alloc).isSome ↔ ∀ i < chanPages, alloc i ≠ none := by
  have hsimple := ChanKind.simplePackage_lawful
  rw [chanPages, forall_chanPages_iff, Option.isSome_iff_exists]
  constructor
  · rintro ⟨chans, h⟩
    obtain ⟨used, used', used'', hudp, hrule, hssn⟩ :=
      frcdrvChansInit_setups.mp h
    obtain ⟨rfl, -, -⟩ := chanSetup_ready hsimple (Nat.le_refl _) hudp
    obtain ⟨rfl, -, -⟩ := chanSetup_ready hsimple (Nat.le_refl _) hrule
    rw [Nat.zero_add] at hrule hssn
    exact ⟨chanSetup_pages hudp, chanSetup_pages hrule, chanSetup_pages hssn⟩
  · rintro ⟨hudp, hrule, hssn⟩
    obtain ⟨udp, _, hsetup, -⟩ :=
      chanSetup_success hsimple (Nat.le_refl _) hudp 0
    obtain ⟨rule, _, hsetup', -⟩ :=
      chanSetup_success hsimple (Nat.le_refl _) hrule 1
    obtain ⟨ssn, _, hsetup'', -⟩ :=
      chanSetup_success ChanKind.ssn_lawful (Nat.le_refl _) hssn 2
    rw [Nat.zero_add] at hsetup
    exact ⟨⟨udp, rule, ssn⟩, frcdrvChansInit_setups.mpr
      ⟨_, _, _, hsetup, hsetup', hsetup''⟩⟩

/-- The module loads its channels exactly when the kernel gives all pages.  Then
every available ring is full of the blocks of its channel, the host finds each
block in the pages that it maps, and no two blocks overlap, whether they belong
to one channel or to two. -/
theorem frcdrvChansInit_spec {alloc : Nat → Option Nat}
    (hpages : PagesApart alloc) :
    ((frcdrvChansInit alloc).isSome ↔ ∀ i < chanPages, alloc i ≠ none) ∧
      ∀ chans, frcdrvChansInit alloc = some chans →
        ∃ udp rule ssn, chans.udp.Full .simplePackage udp ∧
          chans.rule.Full .simplePackage rule ∧ chans.ssn.Full .ssn ssn ∧
          Spaces.Clear ChanKind.simplePackage.blockSize
            ChanKind.simplePackage.blockSize udp rule ∧
          Spaces.Clear ChanKind.simplePackage.blockSize
            ChanKind.ssn.blockSize udp ssn ∧
          Spaces.Clear ChanKind.simplePackage.blockSize
            ChanKind.ssn.blockSize rule ssn := by
  refine ⟨frcdrvChansInit_isSome_iff, fun chans h => ?_⟩
  have hsimple := ChanKind.simplePackage_lawful
  obtain ⟨used, used', used'', hudp, hrule, hssn⟩ :=
    frcdrvChansInit_setups.mp h
  obtain ⟨rfl, hlength, ring, hready⟩ :=
    chanSetup_ready hsimple (Nat.le_refl _) hudp
  obtain ⟨rfl, hlength', ring', hready'⟩ :=
    chanSetup_ready hsimple (Nat.le_refl _) hrule
  obtain ⟨-, hlength'', ring'', hready''⟩ :=
    chanSetup_ready ChanKind.ssn_lawful (Nat.le_refl _) hssn
  refine ⟨_, _, _, hpages.full hsimple hlength hready,
    hpages.full hsimple hlength' hready',
    hpages.full ChanKind.ssn_lawful hlength'' hready'', ?_, ?_, ?_⟩
  · apply hpages.clear_blocks hsimple hsimple
    simp only [ChanKind.pages]
    omega
  · apply hpages.clear_blocks hsimple ChanKind.ssn_lawful
    simp only [ChanKind.pages]
    omega
  · apply hpages.clear_blocks hsimple ChanKind.ssn_lawful
    simp only [ChanKind.pages]
    omega

/-- Pages behind each other, from address 0 on. -/
def consecutivePages (i : Nat) : Option Nat :=
  if i < chanPages then some (i * frcDmaPoolSize) else none

theorem pagesApart_consecutivePages : PagesApart consecutivePages where
  apart := by
    intro i j first second hne hfirst hsecond
    simp only [consecutivePages] at hfirst hsecond
    split at hfirst
    · split at hsecond
      · cases hfirst
        cases hsecond
        rcases Nat.lt_or_gt_of_ne hne with hlt | hgt
        · have hle := Nat.mul_le_mul_right frcDmaPoolSize hlt
          rw [Nat.succ_mul] at hle
          exact .inl hle
        · have hle := Nat.mul_le_mul_right frcDmaPoolSize hgt
          rw [Nat.succ_mul] at hle
          exact .inr hle
      · cases hsecond
    · cases hfirst
  below := by
    intro i addr haddr
    simp only [consecutivePages] at haddr
    split at haddr
    · rename_i hlt
      cases haddr
      have hle := Nat.mul_le_mul_right frcDmaPoolSize hlt
      rw [Nat.succ_mul] at hle
      exact Nat.lt_of_le_of_lt hle (by decide)
    · cases haddr

theorem consecutivePages_ne_none : ∀ i < chanPages, consecutivePages i ≠ none := by
  intro i hi
  rw [consecutivePages, if_pos hi]
  exact Option.some_ne_none _

theorem frcdrvChansInit_spec_consecutive :
    PagesApart consecutivePages ∧
      ∃ chans udp, frcdrvChansInit consecutivePages = some chans ∧
        chans.udp.Full .simplePackage udp := by
  obtain ⟨hsome, hspec⟩ := frcdrvChansInit_spec pagesApart_consecutivePages
  obtain ⟨chans, hinit⟩ :=
    Option.isSome_iff_exists.mp (hsome.mpr consecutivePages_ne_none)
  obtain ⟨udp, rule, ssn, hudp, -⟩ := hspec chans hinit
  exact ⟨pagesApart_consecutivePages, chans, udp, hinit, hudp⟩

end Barley
